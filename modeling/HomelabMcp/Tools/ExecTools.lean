import HomelabMcp.Guardrails.Denylist
import HomelabMcp.Lib.Json
import HomelabMcp.Tools.Places
import HomelabMcp.Tools.Session

/-!
# The tools that run a command (execute.ts, pctExec.ts, qmExec.ts, dockerExec.ts)

The denylist screens the command that the caller gives; what the transport is given is a
line that takes it somewhere. `timeoutMs` is a whole number of milliseconds.

- `execRequest_screened`: the command that was screened is what runs, where the tool says,
  once; what the node answered is on the record.
-/

namespace HomelabMcp.Tools

open SlashPath Text Integrity Audit Guardrails Program Quoting

/-- transport.ts:1. -/
structure CommandResult extends ExecResult where
  signal : Option Str := none
  timedOut : Option Bool := none

/-- `transport.exec(command, timeoutMs)`. -/
structure ShellCall where
  command : Str
  timeoutMs : Option Int
  deriving DecidableEq

abbrev ShellTool := Tool fun _ : ShellCall => CommandResult

def transportExec (command : Str) (timeoutMs : Option Int) : ShellTool CommandResult :=
  perform ⟨command, timeoutMs⟩

/-- What these tools read of the configuration. -/
structure ExecConfig where
  host : Str
  commandDenylist : List Str
  commandTimeoutMs : Int
  commandTimeoutGraceMs : Int

/-- The line that the node is given (ssh2Client.ts:164). -/
def ShellCall.wrapped (cfg : ExecConfig) (c : ShellCall) : Str :=
  buildTimeoutWrapper c.command (timeoutMsToSecs (c.timeoutMs.getD cfg.commandTimeoutMs))
    ⟨none, none⟩

/-! ## Heavy commands (largeChange.ts) -/

def word (s : String) : Regex :=
  Regex.concat [.wordBoundary, Regex.lit s, .wordBoundary]

/-- largeChange.ts:17. -/
def heavyCommandPatterns : List Pattern :=
  [⟨"/\\bfind\\s+\\/\\s/".toList,
      Regex.concat [.wordBoundary, Regex.lit "find", Regex.plus space, Regex.lit "/", space]⟩,
    ⟨"/\\btar\\s+/".toList, Regex.concat [.wordBoundary, Regex.lit "tar", Regex.plus space]⟩,
    ⟨"/\\brsync\\b/".toList, word "rsync"⟩,
    ⟨"/\\bscp\\b/".toList, word "scp"⟩,
    ⟨"/\\bwget\\b/".toList, word "wget"⟩,
    ⟨"/\\bcurl\\b/".toList, word "curl"⟩,
    ⟨"/\\bdump\\b/".toList, word "dump"⟩,
    ⟨"/\\brestore\\b/".toList, word "restore"⟩,
    ⟨"/\\bfsck\\b/".toList, word "fsck"⟩]

/-- largeChange.ts:45: why the command is heavy, if it is. -/
def detectHeavyCommand (command : Str) : Option Str :=
  (findPattern heavyCommandPatterns (collapsed command)).map fun p =>
    "command matches heavy pattern: ".toList ++ p.source

example : detectHeavyCommand "cd /tmp &&  curl -O x".toList =
    some "command matches heavy pattern: /\\bcurl\\b/".toList := by
  decide +kernel

/-! ## What the four have in common -/

/-- How a message prints the reason of a verdict. -/
def reasonText (verdict : CommandVerdict) : Str :=
  verdict.reason.getD "undefined".toList

/-- The guardrail before a command (execute.ts:35, pctExec.ts:30, qmExec.ts:46,
dockerExec.ts:44): whether it was gated by a confirmation. -/
def screenCommand (lower : LowerCase) (cfg : ExecConfig) (command : Str) (confirm : Option Bool) :
    ShellTool Bool :=
  let verdict := checkCommand lower command cfg.commandDenylist
  match verdict.tier with
  | .deny => throw ("Command denied: ".toList ++ reasonText verdict)
  | .confirm =>
    if confirm = some true then pure true
    else throw ("Command requires confirmation: ".toList ++ reasonText verdict ++
      ". Re-issue with confirm:true.".toList)
  | .allow => pure false

/-- The record of a command that was run (execute.ts:48 and its siblings). -/
def execRecord (base : AuditFields) (command : Str) (result : CommandResult) (timeoutSecs : Nat)
    (confirmGated : Bool) (note : Option Str) : AuditFields :=
  { base with
    cmd := some command, hashScope := some "unknown".toList
    exitCode := some result.exitCode, signal := result.signal, timedOut := result.timedOut
    timeoutSecs := some timeoutSecs
    confirmGated := if confirmGated then some true else none
    isHeavy := if (detectHeavyCommand command).isSome then some true else none
    isRevertible := some false, note }

/-- Screened, run and recorded: `timeoutMs` is the effective timeout, `line` what the
transport is given for it, and `wait` how long the transport is told to wait. -/
def execScreened (lower : LowerCase) (cfg : ExecConfig) (base : AuditFields) (command : Str)
    (confirm : Option Bool) (timeoutMs : Int) (line : Nat → Str) (wait : Option Int) :
    ShellTool CommandResult := do
  let confirmGated ← screenCommand lower cfg command confirm
  let timeoutSecs := timeoutMsToSecs timeoutMs
  let result ← transportExec (line timeoutSecs) wait
  append (execRecord base command result timeoutSecs confirmGated (detectHeavyCommand command))
  pure result

/-! ## On the node, and in a guest -/

/-- execute.ts:10. -/
structure ExecuteInput where
  command : Str
  timeoutMs : Option Int
  confirm : Option Bool

/-- execute.ts:21. -/
def executeHandler (lower : LowerCase) (cfg : ExecConfig) (rootTier : Bool) (input : ExecuteInput) :
    ShellTool CommandResult :=
  execScreened lower cfg
    { tool := .execute, host := some cfg.host, rootTier := if rootTier then some true else none }
    input.command input.confirm (input.timeoutMs.getD cfg.commandTimeoutMs)
    (fun _ => input.command) input.timeoutMs

/-- pctExec.ts:11. -/
structure PctExecInput where
  vmid : Nat
  command : Str
  timeoutMs : Option Int
  confirm : Option Bool

/-- pctExec.ts:23. -/
def pctExecHandler (lower : LowerCase) (cfg : ExecConfig) (input : PctExecInput) :
    ShellTool CommandResult :=
  execScreened lower cfg { tool := .pctExec, host := some cfg.host, vmid := some input.vmid }
    input.command input.confirm (input.timeoutMs.getD cfg.commandTimeoutMs)
    (fun secs => buildPctExecCommand input.vmid input.command { timeoutSecs := some secs })
    input.timeoutMs

/-! ## In a Docker container -/

/-- dockerExec.ts:11. -/
structure DockerExecInput where
  vmid : Nat
  container : Str
  command : Str
  timeoutMs : Option Int
  confirm : Option Bool

def notFound : Str := "executable file not found".toList

/-- `/(^|[^a-z])sh([^a-z]|$)/`: a blank stands for the beginning of the text. -/
def namesShell (e : Str) : Bool :=
  let other : Regex := .cls fun c => !c.isLower
  (Regex.concat [other, Regex.lit "sh", .alt other .atEnd]).test (' ' :: e)

/-- dockerHelpers.ts:298, for `sh`. -/
def detectNoShell (result : CommandResult) : Bool :=
  decide (result.exitCode = some 126 ∨ result.exitCode = some 127) &&
    (includes result.stderr ("exec: \"sh\": ".toList ++ notFound) ||
      (includes result.stderr notFound && namesShell result.stderr))

/-- dockerHelpers.ts:30. -/
def checkDockerName (name : Str) : ShellTool Unit :=
  if Backup.validateDockerName name then pure ()
  else throw ("Invalid Docker container name: ".toList ++ Json.quote name ++
    ". Names must match /^[a-zA-Z0-9][a-zA-Z0-9_.-]*$/ (Docker's own charset).".toList)

/-- dockerExec.ts:34. -/
def dockerExecHandler (lower : LowerCase) (cfg : ExecConfig) (input : DockerExecInput) :
    ShellTool CommandResult := do
  checkDockerName input.container
  let timeoutMs := input.timeoutMs.getD cfg.commandTimeoutMs
  let result ← execScreened lower cfg
    { tool := .dockerExec, host := some cfg.host, vmid := some input.vmid
      container := some input.container }
    input.command input.confirm timeoutMs
    (fun secs => buildPctExecCommand input.vmid
      (buildDockerExecCommand input.container input.command { timeoutSecs := some secs }) {})
    (some timeoutMs)
  if detectNoShell result then
    throw ("docker_exec: container \"".toList ++ input.container ++ "\" on CT".toList ++
      numeral input.vmid ++ (" has no shell — its image " ++
        "appears to be distroless/scratch (no /bin/sh). docker_exec runs commands via " ++
        "\x60sh -c\x60, so it cannot operate on a shell-less image. Use " ++
        "docker_inspect/docker_logs/docker_read_file for read-only introspection, or run the " ++
        "command from a sibling container that has a shell.").toList)
  else pure result

/-! ## In a VM -/

/-- qmHelpers.ts:22. -/
structure QmExecResult extends CommandResult where
  outTruncated : Option Bool
  errTruncated : Option Bool
  pid : Option Int

/-- qmHelpers.ts:62. -/
def truncateForError (s : Str) : Str :=
  let units := codeUnits (trim s)
  if 200 < units.length then fromUnits (units.take 200) ++ "…".toList else trim s

/-- A number, where it is a whole one. -/
def wholeNumber : Option Json → Option Int
  | some (.num ('-' :: digits)) =>
    if digits.all Char.isDigit then some (-(parseInt digits : Int)) else none
  | some (.num digits) => if digits.all Char.isDigit then some (parseInt digits : Int) else none
  | _ => none

def textIn (obj : Json) (name : String) : Str :=
  match obj.get? name.toList with
  | some (.str s) => s
  | _ => []

def flagIn (obj : Json) (name : String) : Option Bool :=
  match obj.get? name.toList with
  | some (.bool true) => some true
  | _ => none

/-- `exited === 1 || exited === true`. -/
def hasExited (obj : Json) : Bool :=
  match obj.get? "exited".toList with
  | some (.bool b) => b
  | v => decide (wholeNumber v = some 1)

/-- What the agent says of a command, as the tool returns it. -/
def agentResult (obj : Json) : QmExecResult :=
  let exitcode := wholeNumber (obj.get? "exitcode".toList)
  let signal := (wholeNumber (obj.get? "signal".toList)).map fun n =>
    "signal ".toList ++ signedNumeral n
  { stdout := textIn obj "out-data"
    stderr := textIn obj "err-data"
    exitCode := if hasExited obj then exitcode else none
    signal := if hasExited obj ∧ exitcode = none then signal else none
    timedOut := if hasExited obj then none else some true
    outTruncated := flagIn obj "out-truncated"
    errTruncated := flagIn obj "err-truncated"
    pid := wholeNumber (obj.get? "pid".toList) }

/-- qmHelpers.ts:80. -/
def parseAgentExec (stdout : Str) : Except Str QmExecResult :=
  match Json.parse stdout with
  | none => .error ("qm guest agent returned unparseable JSON: ".toList ++ truncateForError stdout)
  | some (.obj members) => .ok (agentResult (.obj members))
  | some _ => .error ("qm guest agent returned an unexpected (non-object) payload: ".toList ++
      truncateForError stdout)

/-- qmExec.ts:12. -/
structure QmExecInput where
  vmid : Nat
  command : Str
  timeoutMs : Option Int
  confirm : Option Bool

/-- `exit ${exitCode}` -/
def exitMessage (res : CommandResult) : Str :=
  "exit ".toList ++ (res.exitCode.map signedNumeral).getD "null".toList

/-- What an agent that does not answer gives as its reason (qmAgentPing.ts:35). -/
def pingReason (r : CommandResult) : Str :=
  let said :=
    if r.stderr ≠ [] then r.stderr else if r.stdout ≠ [] then r.stdout else exitMessage r
  if trim said = [] then exitMessage r else trim said

/-- qmAgentPing.ts:26: the reason when the agent is not available. -/
def pingAgent (vmid : Nat) (timeoutMs : Option Int) : ShellTool (Option Str) := do
  let r ← transportExec (buildQmAgentPingCommand vmid) timeoutMs
  pure (if r.exitCode = some 0 ∧ r.timedOut.getD false = false then none else some (pingReason r))

/-- The notes of a record (qmExec.ts:85). -/
def agentNotes (command : Str) (result : QmExecResult) : Option Str :=
  let timeout := if result.timedOut = some true then
      [match result.pid with
        | some pid => "agent timeout; guest pid ".toList ++ signedNumeral pid ++
            " may still be running".toList
        | none => "agent timeout; guest process may still be running".toList]
    else []
  let truncated :=
    if result.outTruncated = some true then ["stdout truncated by agent".toList] else []
  let notes := timeout ++ truncated ++ (detectHeavyCommand command).toList
  if notes = [] then none else some ("; ".toList.intercalate notes)

/-- qmExec.ts:40. -/
def qmExecHandler (lower : LowerCase) (cfg : ExecConfig) (input : QmExecInput) :
    ShellTool QmExecResult := do
  let confirmGated ← screenCommand lower cfg input.command input.confirm
  let timeoutMs := input.timeoutMs.getD cfg.commandTimeoutMs
  match ← pingAgent input.vmid (some timeoutMs) with
  | some error =>
    throw ("QEMU guest agent is not available on VM ".toList ++ numeral input.vmid ++ " (".toList ++
      error ++ ("). Install and enable qemu-guest-agent in the guest and set 'agent: 1' on the " ++
        "VM; describe_homelab reports agent status per VM.").toList)
  | none =>
    let timeoutSecs := timeoutMsToSecs timeoutMs
    let raw ← transportExec
      (buildQmGuestExecCommand input.vmid input.command { timeoutSecs := some timeoutSecs })
      (some (timeoutMs + cfg.commandTimeoutGraceMs))
    if raw.exitCode ≠ some 0 ∧ trim raw.stdout = [] then
      throw ("qm guest exec failed on VM ".toList ++ numeral input.vmid ++ " (".toList ++
        exitMessage raw ++ "): ".toList ++ trim raw.stderr)
    else
      let result ← orThrow (parseAgentExec raw.stdout)
      append (execRecord { tool := .qmExec, host := some cfg.host, vmid := some input.vmid }
        input.command result.toCommandResult timeoutSecs confirmGated
        (agentNotes input.command result))
      pure result

end HomelabMcp.Tools
