import HomelabMcp.Guests.SnapshotFailure
import HomelabMcp.Tools.Session

/-!
# The snapshot tools (snapshotTools.ts)

The operations of these handlers are commands on the node. Waiting between two
polls is none: it changes nothing.
-/

namespace HomelabMcp.Guests

open SlashPath Text Integrity Audit Guardrails Program Tools

/-- A command that the snapshot tools run on the node. -/
inductive Command
  | pctList
  | status (type : GuestType) (vmid : Nat)
  | stop (type : GuestType) (vmid : Nat)
  | start (type : GuestType) (vmid : Nat)
  | config (type : GuestType) (vmid : Nat)
  | listSnapshots (type : GuestType) (vmid : Nat)
  | createSnapshot (type : GuestType) (vmid : Nat) (name : Str) (opts : SnapshotCreateOpts)
  | rollbackSnapshot (type : GuestType) (vmid : Nat) (name : Str)
  | deleteSnapshot (type : GuestType) (vmid : Nat) (name : Str)
  deriving DecidableEq

/-- The string that is executed. -/
def Command.text : Command → Str
  | .pctList => pctListCommand
  | .status type vmid => buildGuestStatusCommand type vmid
  | .stop type vmid => buildGuestStopCommand type vmid
  | .start type vmid => buildGuestStartCommand type vmid
  | .config type vmid => buildGuestConfigCommand type vmid
  | .listSnapshots type vmid => buildSnapshotListCommand type vmid
  | .createSnapshot type vmid name opts => buildSnapshotCreateCommand type vmid name opts
  | .rollbackSnapshot type vmid name => buildSnapshotRollbackCommand type vmid name
  | .deleteSnapshot type vmid name => buildSnapshotDeleteCommand type vmid name

abbrev SnapshotCall := ToolCall Command

abbrev SnapshotAnswer := ToolAnswer fun _ : Command => ExecResult

abbrev SnapshotTool := Tool fun _ : Command => ExecResult

/-- The configuration that these tools read (config.ts:152). -/
structure SnapshotConfig where
  host : Str
  perGuestCap : Int
  vmstate : Bool
  restartPollIntervalMs : Nat
  restartTimeoutMs : Nat

/-- How a message prints an exit code. -/
def exitText (exitCode : Option Int) : Str :=
  (exitCode.map signedNumeral).getD "null".toList

/-! ## Shared helpers -/

/-- snapshotTools.ts:32. -/
def detectGuestType (vmid : Nat) : SnapshotTool GuestType := do
  let res ← exec .pctList
  if res.exitCode = some 0 ∧ (parsePctList res.stdout).any fun c => c.vmid == vmid then
    pure .pct
  else pure .qm

/-- snapshotTools.ts:45. -/
def listSnapshots (type : GuestType) (vmid : Nat) : SnapshotTool (List SnapshotInfo) := do
  let res ← exec (.listSnapshots type vmid)
  if res.exitCode ≠ some 0 then
    throw ("listsnapshot failed for ".toList ++ type.text ++ ' ' :: numeral vmid ++
      " (exit ".toList ++ exitText res.exitCode ++ "): ".toList ++ trim res.stderr)
  else pure (parseSnapshotList res.stdout)

/-- snapshotTools.ts:58. -/
def guestState (type : GuestType) (vmid : Nat) : SnapshotTool Str := do
  let res ← exec (.status type vmid)
  if res.exitCode ≠ some 0 then
    throw ("status check failed for ".toList ++ type.text ++ ' ' :: numeral vmid ++
      " (exit ".toList ++ exitText res.exitCode ++ "): ".toList ++ trim res.stderr)
  else pure (parseGuestStatus res.stdout)

/-! ## snapshot_create -/

structure SnapshotCreateInput where
  vmid : Nat
  note : Option Str

structure SnapshotCreateResult where
  name : Str
  guestType : GuestType
  evicted : List Str
  evictionErrors : List Str

/-- The diagnostic fetch of snapshotTools.ts:145, which never throws. -/
def fetchConfig (type : GuestType) (vmid : Nat) : SnapshotTool (Option Str) :=
  tryCatch
    (do
      let res ← exec (.config type vmid)
      pure (if res.exitCode = some 0 then some res.stdout else none))
    fun _ => pure none

/-- The loop of snapshotTools.ts:158: what was evicted, and what could not be. -/
def evictSnapshots (type : GuestType) (vmid : Nat) : List Str → SnapshotTool (List Str × List Str)
  | [] => pure ([], [])
  | old :: rest => do
    let res ← exec (.deleteSnapshot type vmid old)
    let (evicted, errors) ← evictSnapshots type vmid rest
    if res.exitCode ≠ some 0 then
      pure (evicted, (old ++ ": exit ".toList ++ exitText res.exitCode ++ ": ".toList ++
        trim res.stderr) :: errors)
    else pure (old :: evicted, errors)

/-- The note of snapshotTools.ts:171. -/
def createNote (name : Str) (type : GuestType) (evicted evictionErrors : List Str)
    (note : Option Str) : Str :=
  "Created snapshot ".toList ++ name ++ " (".toList ++ type.text ++ [')'] ++
    (if evicted = [] then [] else "; evicted ".toList ++ commaJoin evicted) ++
    (if evictionErrors = [] then []
      else "; eviction failed for ".toList ++ joinReasons evictionErrors) ++
    (match note with
      | none | some [] => []
      | some text => " — ".toList ++ text)

/-- snapshotTools.ts:114. -/
def snapshotCreateHandler (cfg : SnapshotConfig) (input : SnapshotCreateInput) (now : Instant) :
    SnapshotTool SnapshotCreateResult := do
  let type ← detectGuestType input.vmid
  -- The snapshots before the new one are all that can be evicted.
  let existing ← listSnapshots type input.vmid
  let mcpNames := (existing.filter fun s => s.mcpManaged).map fun s => s.name
  let name := generateSnapshotName now
  let createRes ← exec (.createSnapshot type input.vmid name ⟨input.note, cfg.vmstate⟩)
  if createRes.exitCode ≠ some 0 then
    let configText ← fetchConfig type input.vmid
    throw (enrichSnapshotFailure createRes.stderr type configText)
  else
    let (evicted, evictionErrors) ←
      evictSnapshots type input.vmid (planSnapshotEviction mcpNames cfg.perGuestCap 1)
    append {
      tool := .snapshotCreate, host := some cfg.host, vmid := some input.vmid
      note := some (createNote name type evicted evictionErrors input.note) }
    pure { name, guestType := type, evicted, evictionErrors }

/-! ## snapshot_list -/

/-- snapshotTools.ts:194. -/
def snapshotListHandler (vmid : Nat) : SnapshotTool (GuestType × List SnapshotInfo) := do
  let type ← detectGuestType vmid
  let snapshots ← listSnapshots type vmid
  pure (type, snapshots)

/-! ## snapshot_rollback -/

def running : Str := "running".toList

/-- snapshotTools.ts:82: poll until the guest runs or the time is over. Each round
adds the poll interval to `waited`, so the fuel only runs out when that is zero. -/
def waitForGuestRunning (cfg : SnapshotConfig) (type : GuestType) (vmid : Nat) :
    Nat → Str → Nat → SnapshotTool Str
  | fuel, state, waited =>
    if state ≠ running ∧ waited < cfg.restartTimeoutMs then
      match fuel with
      | 0 => .unfinished
      | fuel + 1 => do
        let next ← guestState type vmid
        waitForGuestRunning cfg type vmid fuel next (waited + cfg.restartPollIntervalMs)
    else pure state

structure SnapshotRollbackInput where
  vmid : Nat
  name : Str
  confirm : Bool
  stopIfRunning : Bool
  overrideCircuitBreaker : Bool

structure SnapshotRollbackResult where
  name : Str
  guestType : GuestType
  restarted : Bool

def quoted (s : Str) : Str :=
  Shell.doubleQuote :: s ++ [Shell.doubleQuote]

/-- snapshotTools.ts:236. -/
def rollbackUnconfirmed : Str :=
  ("Refusing snapshot_rollback without confirm: true. Rollback DISCARDS ALL guest state " ++
    "(files, processes, data) created since the snapshot was taken. Re-issue with confirm: true " ++
    "to proceed.").toList

/-- snapshotTools.ts:241. -/
def rollbackForeign (name : Str) : Str :=
  "Refusing to roll back to ".toList ++ quoted name ++
    (": only server-managed (mcp-*) snapshots may be rolled back. Roll back to a user snapshot " ++
      "manually via the Proxmox UI.").toList

/-- A guest that runs and may not be stopped (snapshotTools.ts:276). -/
def rollbackRunning (vmid : Nat) : Str :=
  "Guest ".toList ++ numeral vmid ++
    (" is running. Rollback requires the guest to be stopped. Re-issue with stopIfRunning: true " ++
      "to stop, roll back, and restart it.").toList

/-- snapshotTools.ts:284. -/
def stopForRollback (type : GuestType) (vmid : Nat) : SnapshotTool Unit := do
  let res ← exec (.stop type vmid)
  if res.exitCode ≠ some 0 then
    throw ("Failed to stop guest ".toList ++ numeral vmid ++ " (exit ".toList ++
      exitText res.exitCode ++ "): ".toList ++ trim res.stderr)
  else pure ()

/-- snapshotTools.ts:297: the exit code of the start is not trusted; the guest's own
state decides. -/
def restartAfterRollback (cfg : SnapshotConfig) (type : GuestType) (vmid : Nat) :
    SnapshotTool Unit := do
  let _ ← exec (.start type vmid)
  let first ← guestState type vmid
  let final ← waitForGuestRunning cfg type vmid (cfg.restartTimeoutMs + 1) first 0
  if final ≠ running then
    throw ("Rolled back ".toList ++ type.text ++ ' ' :: numeral vmid ++
      ", but it did not return to running within ".toList ++ numeral cfg.restartTimeoutMs ++
      "ms (current state: ".toList ++ (if final = [] then "unknown".toList else final) ++
      ("). The rollback itself succeeded; start the guest manually or investigate.").toList)
  else pure ()

/-- The record of snapshotTools.ts:322. -/
def rollbackRecord (cfg : SnapshotConfig) (input : SnapshotRollbackInput) (type : GuestType)
    (state : Str) : AuditFields where
  tool := .snapshotRollback
  host := some cfg.host
  vmid := some input.vmid
  isLargeChange := some true
  circuitBreakerOverridden := if input.overrideCircuitBreaker then some true else none
  note := some ("Rolled back ".toList ++ type.text ++ ' ' :: numeral input.vmid ++
    " to snapshot ".toList ++ input.name ++ "; prior run-state: ".toList ++
    (if state = running then "running (restarted)".toList
      else if state = [] then "stopped".toList else state) ++ ['.'] ++
    (if type = .qm ∧ !cfg.vmstate then
      (" VM rollback is disk-only (no RAM state): the guest resumes as if from power loss, not " ++
        "from the moment of the snapshot.").toList
    else []))

/-- snapshotTools.ts:263, behind the breaker. -/
def rollBack (cfg : SnapshotConfig) (input : SnapshotRollbackInput) :
    SnapshotTool SnapshotRollbackResult := do
  let type ← detectGuestType input.vmid
  let state ← guestState type input.vmid
  let wasRunning := decide (state = running)
  if wasRunning ∧ !input.stopIfRunning then
    throw (rollbackRunning input.vmid)
  else
    if wasRunning then stopForRollback type input.vmid else pure ()
    let res ← exec (.rollbackSnapshot type input.vmid input.name)
    if res.exitCode ≠ some 0 then
      throw ("rollback failed (exit ".toList ++ exitText res.exitCode ++ "): ".toList ++
        trim res.stderr)
    else
      if wasRunning then restartAfterRollback cfg type input.vmid else pure ()
      append (rollbackRecord cfg input type state)
      pure { name := input.name, guestType := type, restarted := wasRunning }

/-- snapshotTools.ts:227; `hasBreaker`: a breaker was injected. -/
def snapshotRollbackHandler (cfg : SnapshotConfig) (hasBreaker : Bool)
    (input : SnapshotRollbackInput) : SnapshotTool SnapshotRollbackResult :=
  if !input.confirm then throw rollbackUnconfirmed
  else if !isMcpSnapshot input.name then throw (rollbackForeign input.name)
  else do
    breakerGate (hasBreaker && !input.overrideCircuitBreaker)
      (rollbackTargetKey (.guest input.vmid))
      { tool := .snapshotRollback, host := some cfg.host, vmid := some input.vmid }
    rollBack cfg input

/-! ## snapshot_delete -/

structure SnapshotDeleteInput where
  vmid : Nat
  name : Str

/-- snapshotTools.ts:350. -/
def deleteForeign (name : Str) : Str :=
  "Refusing to delete ".toList ++ quoted name ++
    ": only server-managed (mcp-*) snapshots may be deleted.".toList

/-- snapshotTools.ts:343. -/
def snapshotDeleteHandler (cfg : SnapshotConfig) (input : SnapshotDeleteInput) :
    SnapshotTool (Str × GuestType) :=
  if !isMcpSnapshot input.name then throw (deleteForeign input.name)
  else do
    let type ← detectGuestType input.vmid
    let res ← exec (.deleteSnapshot type input.vmid input.name)
    if res.exitCode ≠ some 0 then
      throw ("snapshot delete failed (exit ".toList ++ exitText res.exitCode ++ "): ".toList ++
        trim res.stderr)
    else
      append {
        tool := .snapshotDelete, host := some cfg.host, vmid := some input.vmid
        note := some ("Deleted snapshot ".toList ++ input.name ++ " (".toList ++ type.text ++
          [')']) }
      pure (input.name, type)

end HomelabMcp.Guests
