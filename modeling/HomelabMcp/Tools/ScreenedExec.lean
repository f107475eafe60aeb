import HomelabMcp.Guardrails.Tiers
import HomelabMcp.Tools.ExecTools

/-!
# What a screened command may do (execute.ts, pctExec.ts, qmExec.ts, dockerExec.ts)

A run of one of the four tools is followed from outside: the lines that the transport is given,
its answers, and the records.

- `execRequest_screened`: nothing reaches the node before the command has passed the denylist
  (with a confirmation where that asks for one); what reaches it comes down to that very
  command at the place of the tool, once; and the answer is on the record, once.
-/

namespace HomelabMcp.Tools

open SlashPath Text Shell Integrity Audit Guardrails Program Quoting Backup

/-- A call of one of the tools. -/
inductive ExecRequest
  | execute (rootTier : Bool) (input : ExecuteInput)
  | pctExec (input : PctExecInput)
  | dockerExec (input : DockerExecInput)
  | qmExec (input : QmExecInput)

namespace ExecRequest

def command : ExecRequest → Str
  | execute _ input => input.command
  | pctExec input => input.command
  | dockerExec input => input.command
  | qmExec input => input.command

def confirm : ExecRequest → Option Bool
  | execute _ input => input.confirm
  | pctExec input => input.confirm
  | dockerExec input => input.confirm
  | qmExec input => input.confirm

/-- Where the tool says that it runs the command. -/
def place : ExecRequest → ShellPlace
  | execute _ _ => .node
  | pctExec input => .guest input.vmid
  | dockerExec input => .container input.vmid input.container
  | qmExec input => .vm input.vmid

/-- The fields of a record that say which tool, and where. -/
def base (cfg : ExecConfig) : ExecRequest → AuditFields
  | execute rootTier _ =>
    { tool := .execute, host := some cfg.host, rootTier := if rootTier then some true else none }
  | pctExec input => { tool := .pctExec, host := some cfg.host, vmid := some input.vmid }
  | dockerExec input =>
    { tool := .dockerExec, host := some cfg.host, vmid := some input.vmid
      container := some input.container }
  | qmExec input => { tool := .qmExec, host := some cfg.host, vmid := some input.vmid }

/-- The handler; of what `qm_exec` returns, what the others return as well. -/
def handler (lower : LowerCase) (cfg : ExecConfig) : ExecRequest → ShellTool CommandResult
  | execute rootTier input => executeHandler lower cfg rootTier input
  | pctExec input => pctExecHandler lower cfg input
  | dockerExec input => dockerExecHandler lower cfg input
  | qmExec input => do
    let result ← qmExecHandler lower cfg input
    pure result.toCommandResult

/-- The call only asks the agent of the VM whether it is there. -/
def IsPing : ExecRequest → ShellCall → Prop
  | qmExec input, c => c.command = buildQmAgentPingCommand input.vmid
  | execute _ _, _ | pctExec _, _ | dockerExec _, _ => False

instance (req : ExecRequest) (c : ShellCall) : Decidable (req.IsPing c) := by
  cases req <;> unfold IsPing <;> infer_instance

/-- The result of the command in what the node answered: a VM's agent reports it in JSON, or
reports none. -/
def reported : ExecRequest → CommandResult → Option CommandResult
  | qmExec _, raw =>
    if raw.exitCode ≠ some 0 ∧ trim raw.stdout = [] then none
    else (parseAgentExec raw.stdout).toOption.map QmExecResult.toCommandResult
  | execute _ _, raw | pctExec _, raw | dockerExec _, raw => some raw

end ExecRequest

/-! ## Following a run -/

/-- The denylist lets the command pass, and the caller confirmed it where it has to be. -/
structure Screened (lower : LowerCase) (cfg : ExecConfig) (req : ExecRequest) : Prop where
  notDenied : (checkCommand lower req.command cfg.commandDenylist).tier ≠ .deny
  confirmed : (checkCommand lower req.command cfg.commandDenylist).tier = .confirm →
    req.confirm = some true

/-- The record tells of the command and its result. -/
structure TellsCommand (lower : LowerCase) (cfg : ExecConfig) (req : ExecRequest)
    (result : CommandResult) (record : AuditFields) : Prop where
  tool : record.tool = (req.base cfg).tool
  vmid : record.vmid = (req.base cfg).vmid
  container : record.container = (req.base cfg).container
  rootTier : record.rootTier = (req.base cfg).rootTier
  cmd : record.cmd = some req.command
  exitCode : record.exitCode = some result.exitCode
  signal : record.signal = result.signal
  timedOut : record.timedOut = result.timedOut
  scope : record.hashScope = some "unknown".toList
  heavy : record.isHeavy = some true ↔ (detectHeavyCommand req.command).isSome = true
  gated : record.confirmGated = some true ↔
    (checkCommand lower req.command cfg.commandDenylist).tier = .confirm

structure ExecTrail where
  /-- What the node answered to the command, once it was given it. -/
  ran : Option (Except Str CommandResult)
  records : List AuditFields

def ExecTrail.start : ExecTrail :=
  ⟨none, []⟩

def execMonitor (lower : LowerCase) (cfg : ExecConfig) (req : ExecRequest) :
    Monitor (ToolCall ShellCall) (ToolAnswer fun _ => CommandResult) ExecTrail where
  next t
    | .op c, answer => if req.IsPing c then t else { t with ran := some answer }
    | .append record, _ => { t with records := t.records ++ [record] }
    | .check _, _ | .peek _, _ | .clock, _ => t
  allowed t
    | .op c => t.ran = none ∧ Screened lower cfg req ∧
        (req.IsPing c ∨ Runs .node (c.wrapped cfg) req.place req.command)
    | .append record => t.records = [] ∧ ∃ raw result, t.ran = some (.ok raw) ∧
        req.reported raw = some result ∧ TellsCommand lower cfg req result record
    | .check _ | .peek _ | .clock => False

section
variable {lower : LowerCase} {cfg : ExecConfig} {req : ExecRequest} {c : ShellCall}
  {answer : Except Str CommandResult} {t : ExecTrail}

theorem execMonitor_next_ping (h : req.IsPing c) :
    (execMonitor lower cfg req).next t (.op c) answer = t :=
  if_pos h

theorem execMonitor_next_command (h : ¬req.IsPing c) :
    (execMonitor lower cfg req).next t (.op c) answer = { t with ran := some answer } :=
  if_neg h

end

/-- How a run ends. -/
structure ExecSettled (req : ExecRequest) (t : ExecTrail) (o : Outcome Str CommandResult) : Prop where
  ended : o ≠ .unfinished
  /-- Whatever the command's result was, it is on the record. -/
  recorded : ∀ raw result, t.ran = some (.ok raw) → req.reported raw = some result →
    t.records.length = 1
  /-- The caller gets the result of the command. -/
  returned : ∀ result, o = .returned result →
    ∃ raw, t.ran = some (.ok raw) ∧ req.reported raw = some result

/-! ## The guardrail -/

section
variable {lower : LowerCase} {cfg : ExecConfig} {req : ExecRequest} {σ : Type}

theorem meets_screenCommand
    {M : Monitor (ToolCall ShellCall) (ToolAnswer fun _ => CommandResult) σ} {s : σ}
    {post : σ → Outcome Str Bool → Prop} (hrefused : ∀ e, post s (.thrown e))
    (hpassed : ∀ gated, Screened lower cfg req → (gated = true ↔
      (checkCommand lower req.command cfg.commandDenylist).tier = .confirm) →
      post s (.returned gated)) :
    M.Meets post s (screenCommand lower cfg req.command req.confirm) := by
  unfold screenCommand
  simp only
  split
  · exact hrefused _
  · next htier =>
    refine Monitor.meets_ite.mpr ⟨fun hconfirm => ?_, fun _ => hrefused _⟩
    refine hpassed true ⟨fun h => ?_, fun _ => hconfirm⟩ (iff_of_true rfl htier)
    exact CommandTier.noConfusion (htier.symm.trans h)
  · next htier =>
    refine hpassed false ⟨fun h => ?_, fun h => ?_⟩ (iff_of_false Bool.false_ne_true fun h => ?_)
    · exact CommandTier.noConfusion (htier.symm.trans h)
    · exact CommandTier.noConfusion (htier.symm.trans h)
    · exact CommandTier.noConfusion (htier.symm.trans h)

theorem tells_execRecord {result : CommandResult} {gated : Bool} (timeoutSecs : Nat)
    (note : Option Str) (hgated : gated = true ↔
      (checkCommand lower req.command cfg.commandDenylist).tier = .confirm) :
    TellsCommand lower cfg req result
      (execRecord (req.base cfg) req.command result timeoutSecs gated note) where
  tool := rfl
  vmid := rfl
  container := rfl
  rootTier := rfl
  cmd := rfl
  exitCode := rfl
  signal := rfl
  timedOut := rfl
  scope := rfl
  heavy := by
    show (if _ then some true else none) = some true ↔ _
    split
    · next h => exact iff_of_true rfl h
    · next h => exact iff_of_false nofun h
  gated := by
    rw [← hgated]
    show (if gated = true then some true else none) = some true ↔ _
    split
    · next h => exact iff_of_true rfl h
    · next h => exact iff_of_false nofun h

/-- A run that was refused before the node was asked. -/
theorem execSettled_refused (e : Str) : ExecSettled req .start (.thrown e) where
  ended := nofun
  recorded _ _ h _ := nomatch h
  returned _ h := nomatch h

/-- The node did not answer. -/
theorem execSettled_failed (e e' : Str) : ExecSettled req ⟨some (.error e), []⟩ (.thrown e') where
  ended := nofun
  recorded _ _ h _ := nomatch h
  returned _ h := nomatch h

/-- Nor does anything come of an answer that reports no result. -/
theorem execSettled_unreported {raw : CommandResult} (h : req.reported raw = none) (e : Str) :
    ExecSettled req ⟨some (.ok raw), []⟩ (.thrown e) where
  ended := nofun
  recorded := by
    rintro raw' result hran hreported
    cases hran
    exact absurd (h.symm.trans hreported) nofun
  returned _ h := nomatch h

theorem execSettled_recorded {raw result : CommandResult} (h : req.reported raw = some result)
    (record : AuditFields) {o : Outcome Str CommandResult} (hended : o ≠ .unfinished)
    (hreturned : ∀ r, o = .returned r → r = result) :
    ExecSettled req ⟨some (.ok raw), [record]⟩ o where
  ended := hended
  recorded _ _ _ _ := rfl
  returned r hr := ⟨raw, rfl, by rw [hreturned r hr, h]⟩

theorem execSettled_returned (h : ∀ raw, req.reported raw = some raw) (raw : CommandResult)
    (record : AuditFields) : ExecSettled req ⟨some (.ok raw), [record]⟩ (.returned raw) :=
  execSettled_recorded (h raw) record nofun fun r hr => by cases hr; rfl

/-- The command is handed over, and its result recorded. -/
theorem meets_execScreened {timeoutMs : Int} {line : Nat → Str} {wait : Option Int}
    {post : ExecTrail → Outcome Str CommandResult → Prop}
    (hping : ∀ c, ¬req.IsPing c) (hreported : ∀ raw, req.reported raw = some raw)
    (hruns : ∀ secs,
      Runs .node ((⟨line secs, wait⟩ : ShellCall).wrapped cfg) req.place req.command)
    (hrefused : ∀ e, post .start (.thrown e))
    (hfailed : ∀ e, post ⟨some (.error e), []⟩ (.thrown e))
    (hdone : ∀ raw record, post ⟨some (.ok raw), [record]⟩ (.returned raw)) :
    (execMonitor lower cfg req).Meets post .start
      (execScreened lower cfg (req.base cfg) req.command req.confirm timeoutMs line wait) := by
  refine Monitor.meets_bind.mpr (meets_screenCommand hrefused fun gated hscreened hgated => ?_)
  have hnext (secs : Nat) (answer : Except Str CommandResult) :
      (execMonitor lower cfg req).next .start (.op ⟨line secs, wait⟩) answer =
        ⟨some answer, []⟩ := execMonitor_next_command (hping _)
  refine Monitor.meets_bind.mpr (meets_perform.mpr ⟨⟨rfl, hscreened, .inr (hruns _)⟩, ?_, ?_⟩)
  · intro raw
    rw [hnext]
    refine Monitor.meets_bind.mpr (meets_append.mpr ⟨⟨rfl, raw, raw, rfl, hreported raw, ?_⟩, ?_⟩)
    · exact tells_execRecord _ _ hgated
    · exact hdone raw _
  · intro e
    rw [hnext]
    exact hfailed e

/-! ## The four tools -/

/-- A line that the node is given, around one that gets the command to its place. -/
theorem runs_wrapped {line : Str} {wait : Option Int} (hnul : Shell.nul ∉ line) {p : ShellPlace}
    {command : Str} (h : Runs .node line p command) :
    Runs .node ((⟨line, wait⟩ : ShellCall).wrapped cfg) p command :=
  (runs_buildTimeoutWrapper .node _ _ hnul).trans h

theorem meets_executeHandler {rootTier : Bool} {input : ExecuteInput}
    (h : Shell.nul ∉ input.command) :
    (execMonitor lower cfg (.execute rootTier input)).Meets (ExecSettled (.execute rootTier input))
      .start (executeHandler lower cfg rootTier input) :=
  meets_execScreened (fun _ => id) (fun _ => rfl) (fun _ => runs_wrapped h (.here _ _))
    execSettled_refused (fun e => execSettled_failed e e) fun raw record =>
      execSettled_returned (fun _ => rfl) raw record

theorem meets_pctExecHandler {input : PctExecInput} (h : Shell.nul ∉ input.command) :
    (execMonitor lower cfg (.pctExec input)).Meets (ExecSettled (.pctExec input)) .start
      (pctExecHandler lower cfg input) :=
  meets_execScreened (fun _ => id) (fun _ => rfl)
    (fun _ => runs_wrapped (nul_notMem_buildPctExecCommand h)
      (runs_buildPctExecCommand input.vmid _ h))
    execSettled_refused (fun e => execSettled_failed e e) fun raw record =>
      execSettled_returned (fun _ => rfl) raw record

theorem runs_dockerLine {vmid : Nat} {name command : Str} {opts : DockerExecOptions}
    (hname : validateDockerName name = true) (h : Shell.nul ∉ command) :
    Runs .node (buildPctExecCommand vmid (buildDockerExecCommand name command opts) {})
      (.container vmid name) command :=
  have hnul := nul_notMem_of_validateDockerName hname
  (runs_buildPctExecCommand vmid {} (nul_notMem_buildDockerExecCommand hnul h)).trans
    (runs_buildDockerExecCommand vmid opts hname hnul h)

theorem meets_dockerExecHandler {input : DockerExecInput} (h : Shell.nul ∉ input.command) :
    (execMonitor lower cfg (.dockerExec input)).Meets (ExecSettled (.dockerExec input)) .start
      (dockerExecHandler lower cfg input) := by
  unfold dockerExecHandler checkDockerName
  refine Monitor.meets_bind.mpr (Monitor.meets_ite.mpr ⟨fun hname => ?_, fun _ => ?_⟩)
  · refine Monitor.meets_bind.mpr (meets_execScreened (fun _ => id) (fun _ => rfl) (fun _ => ?_)
      execSettled_refused (fun e => execSettled_failed e e) fun raw record => ?_)
    · have hnul := nul_notMem_of_validateDockerName hname
      exact runs_wrapped (nul_notMem_buildPctExecCommand (nul_notMem_buildDockerExecCommand hnul h))
        (runs_dockerLine hname h)
    · have hreported : ExecRequest.reported (.dockerExec input) raw = some raw := rfl
      -- The record is there already when the image turns out to have no shell.
      refine Monitor.meets_ite.mpr ⟨fun _ => ?_, fun _ => ?_⟩
      · exact execSettled_recorded hreported record nofun nofun
      · exact execSettled_recorded hreported record nofun fun r hr => by cases hr; rfl
  · exact execSettled_refused _

theorem buildQmGuestExecCommand_ne_ping {vmid : Nat} {command : Str} {opts : QmGuestExecOptions} :
    buildQmGuestExecCommand vmid command opts ≠ buildQmAgentPingCommand vmid := fun h =>
  absurd (congrArg (fun s => s[3]?) h : some 'g' = some 'a') (by decide)

theorem meets_pingAgent {input : QmExecInput} {timeoutMs : Option Int}
    {post : ExecTrail → Outcome Str (Option Str) → Prop}
    (hscreened : Screened lower cfg (.qmExec input)) (hthrown : ∀ e, post .start (.thrown e))
    (hanswered : ∀ reason, post .start (.returned reason)) :
    (execMonitor lower cfg (.qmExec input)).Meets post .start (pingAgent input.vmid timeoutMs) := by
  have hnext (answer : Except Str CommandResult) :
      (execMonitor lower cfg (.qmExec input)).next .start
        (.op ⟨buildQmAgentPingCommand input.vmid, timeoutMs⟩) answer = .start :=
    execMonitor_next_ping rfl
  refine Monitor.meets_bind.mpr (meets_perform.mpr ⟨⟨rfl, hscreened, .inl rfl⟩, ?_, ?_⟩)
  · intro raw
    rw [hnext]
    exact hanswered _
  · intro e
    rw [hnext]
    exact hthrown e

theorem meets_qmExecHandler {input : QmExecInput} (h : Shell.nul ∉ input.command) :
    (execMonitor lower cfg (.qmExec input)).Meets (ExecSettled (.qmExec input)) .start
      (ExecRequest.handler lower cfg (.qmExec input)) := by
  unfold ExecRequest.handler qmExecHandler
  refine Monitor.meets_bind.mpr (Monitor.meets_bind.mpr
    (@meets_screenCommand lower cfg (.qmExec input) _ _ _ _ execSettled_refused
      fun gated hscreened hgated => ?_))
  refine Monitor.meets_bind.mpr (meets_pingAgent hscreened execSettled_refused fun reason => ?_)
  cases reason with
  | some error => exact execSettled_refused _
  | none =>
    have hnext (secs : Nat) (wait : Option Int) (answer : Except Str CommandResult) :
        (execMonitor lower cfg (.qmExec input)).next .start
          (.op ⟨buildQmGuestExecCommand input.vmid input.command ⟨none, some secs⟩, wait⟩)
          answer = ⟨some answer, []⟩ := by
      have hne : buildQmGuestExecCommand input.vmid input.command ⟨none, some secs⟩ ≠
          buildQmAgentPingCommand input.vmid := buildQmGuestExecCommand_ne_ping
      exact execMonitor_next_command hne
    refine Monitor.meets_bind.mpr (meets_perform.mpr ⟨⟨rfl, hscreened, .inr ?_⟩, fun raw => ?_,
      fun e => ?_⟩)
    · exact runs_wrapped (nul_notMem_buildQmGuestExecCommand h)
        (runs_buildQmGuestExecCommand input.vmid _ h)
    · rw [hnext]
      refine Monitor.meets_ite.mpr ⟨fun hempty => ?_, fun hsome => ?_⟩
      · have hreported : ExecRequest.reported (.qmExec input) raw = none := if_pos hempty
        exact execSettled_unreported hreported _
      · have hreported : ExecRequest.reported (.qmExec input) raw =
            (parseAgentExec raw.stdout).toOption.map QmExecResult.toCommandResult := if_neg hsome
        refine Monitor.meets_bind.mpr (Monitor.meets_orThrow.mpr ⟨fun result hparse => ?_,
          fun e hparse => ?_⟩)
        · rw [hparse] at hreported
          refine Monitor.meets_bind.mpr (meets_append.mpr
            ⟨⟨rfl, raw, result.toCommandResult, rfl, hreported, tells_execRecord _ _ hgated⟩, ?_⟩)
          exact execSettled_recorded hreported _ nofun fun r hr => by cases hr; rfl
        · rw [hparse] at hreported
          exact execSettled_unreported hreported e
    · rw [hnext]
      exact execSettled_failed e e

end

/-- The node answers each command with an exit code of 0, and the log takes each record. -/
def obliging : (c : ToolCall ShellCall) → ToolAnswer (fun _ => CommandResult) c
  | .op _ => .ok { stdout := [], stderr := [], exitCode := some 0 }
  | .append _ => ()
  | .check _ | .peek _ => ⟨false, 0, 0, 0⟩
  | .clock => 0

def labExec : ExecConfig where
  host := "pve".toList
  commandDenylist := ["confirm:systemctl stop".toList]
  commandTimeoutMs := 60000
  commandTimeoutGraceMs := 5000

/-- `it's` has to come through two shells. -/
def quotedEcho : ExecRequest :=
  .dockerExec ⟨101, "web".toList, "echo it's $HOME".toList, none, none⟩

end HomelabMcp.Tools
