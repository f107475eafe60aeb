import HomelabMcp.Lib.SlashPath

/-!
# Audit records (record.ts)

What the tools append to the audit log. `AuditFields` is what a tool gives to
`buildAuditRecord`; the record has an id and a time besides.
-/

namespace HomelabMcp.Audit

open SlashPath

/-- record.ts:5. -/
inductive AuditTool
  | execute
  | readFile
  | writeFile
  | editFile
  | listDirectory
  | pctExec
  | pctList
  | revertFile
  | pctReadFile
  | pctWriteFile
  | pctEditFile
  | snapshotCreate
  | snapshotList
  | snapshotRollback
  | snapshotDelete
  | qmExec
  | qmReadFile
  | qmWriteFile
  | qmEditFile
  | dockerExec
  | dockerReadFile
  | dockerWriteFile
  | dockerEditFile
  | configSweep
  | guestStart
  | guestStop
  | guestRestart
  | guestBackup
  | guestBackupRestore
  | composeRedeploy
  | computeTree
  | verifyIntegrity
  | acceptTruth
  | serviceRestart
  | dockerRestart
  | composeUpdate
  deriving DecidableEq, Repr

def AuditTool.text : AuditTool → Str
  | .execute => "execute".toList
  | .readFile => "read_file".toList
  | .writeFile => "write_file".toList
  | .editFile => "edit_file".toList
  | .listDirectory => "list_directory".toList
  | .pctExec => "pct_exec".toList
  | .pctList => "pct_list".toList
  | .revertFile => "revert_file".toList
  | .pctReadFile => "pct_read_file".toList
  | .pctWriteFile => "pct_write_file".toList
  | .pctEditFile => "pct_edit_file".toList
  | .snapshotCreate => "snapshot_create".toList
  | .snapshotList => "snapshot_list".toList
  | .snapshotRollback => "snapshot_rollback".toList
  | .snapshotDelete => "snapshot_delete".toList
  | .qmExec => "qm_exec".toList
  | .qmReadFile => "qm_read_file".toList
  | .qmWriteFile => "qm_write_file".toList
  | .qmEditFile => "qm_edit_file".toList
  | .dockerExec => "docker_exec".toList
  | .dockerReadFile => "docker_read_file".toList
  | .dockerWriteFile => "docker_write_file".toList
  | .dockerEditFile => "docker_edit_file".toList
  | .configSweep => "config_sweep".toList
  | .guestStart => "guest_start".toList
  | .guestStop => "guest_stop".toList
  | .guestRestart => "guest_restart".toList
  | .guestBackup => "guest_backup".toList
  | .guestBackupRestore => "guest_backup_restore".toList
  | .composeRedeploy => "compose_redeploy".toList
  | .computeTree => "compute_tree".toList
  | .verifyIntegrity => "verify_integrity".toList
  | .acceptTruth => "accept_truth".toList
  | .serviceRestart => "service_restart".toList
  | .dockerRestart => "docker_restart".toList
  | .composeUpdate => "compose_update".toList

/-- `circuitBreaker` (record.ts:100). -/
structure BreakerFields where
  recentCount : Nat
  limit : Int
  windowMs : Int
  deriving DecidableEq

/-- record.ts:43, without `id` and `ts`. In `exitCode` the inner `none` is the
`null` of a command that a signal ended. -/
structure AuditFields where
  tool : AuditTool
  host : Option Str := none
  vmid : Option Nat := none
  container : Option Str := none
  containerId : Option Str := none
  path : Option Str := none
  prevBackup : Option Str := none
  prevSha256 : Option Str := none
  newSha256 : Option Str := none
  bytes : Option Nat := none
  cmd : Option Str := none
  exitCode : Option (Option Int) := none
  signal : Option Str := none
  timedOut : Option Bool := none
  timeoutSecs : Option Nat := none
  confirmGated : Option Bool := none
  rootTier : Option Bool := none
  isLargeChange : Option Bool := none
  isHeavy : Option Bool := none
  isRevertible : Option Bool := none
  historyCommitted : Option Bool := none
  beforeHash : Option Str := none
  afterHash : Option Str := none
  hashScope : Option Str := none
  refused : Option Bool := none
  circuitBreaker : Option BreakerFields := none
  circuitBreakerOverridden : Option Bool := none
  failed : Option Bool := none
  pending : Option Bool := none
  note : Option Str := none
  deriving DecidableEq

/-- record.ts:43. -/
structure AuditRecord extends AuditFields where
  id : Str
  ts : Str
  deriving DecidableEq

end HomelabMcp.Audit
