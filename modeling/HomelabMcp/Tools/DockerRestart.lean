import HomelabMcp.Docker.Containers
import HomelabMcp.Tools.ExecTools

/-!
# Restarting a Docker container (dockerRestart.ts)

A container may live in the network namespace of another one, and loses its network when that
one is restarted. The tool looks for such dependents first.

- `docker_restart_keeps_networks`: whatever is answered, a provider is restarted only as the
  caller has said what is to become of its dependents, which come after it, and the restart is
  on record once.
-/

namespace HomelabMcp.Tools

open SlashPath Text Audit Program
open Docker (ContainerIdentity parseContainerIdentities joinedContainer
  buildContainerIdentityCommand)
open Quoting (shSingleQuote)

/-! ## The commands -/

/-- dockerUpdate.ts:627. -/
def findNetnsDependents (target : ContainerIdentity) (all : List ContainerIdentity) :
    List ContainerIdentity :=
  all.filter fun c =>
    if c.id = target.id then false
    else match (joinedContainer c.networkMode).map trim with
      | none => false
      | some ref => ref == target.name || ref == target.id ||
        (decide (12 ≤ (codeUnits ref).length) && ref.isPrefixOf target.id)

/-- dockerUpdate.ts:637. -/
def buildDockerRestartCommand (containers : List Str) (timeoutSec : Option Nat) : Str :=
  "docker restart".toList ++ (timeoutSec.elim [] fun t => " -t ".toList ++ numeral t) ++ ' ' ::
    Integrity.joinWith ' ' (containers.map shSingleQuote)

/-! ## The handler -/

inductive NetnsDependents
  | refuse
  | restart
  | ignore
  deriving DecidableEq

def NetnsDependents.text : NetnsDependents → Str
  | .refuse => "refuse".toList
  | .restart => "restart".toList
  | .ignore => "ignore".toList

/-- dockerRestart.ts:28. -/
structure DockerRestartInput where
  vmid : Nat
  container : Str
  timeoutSec : Option Nat
  netnsDependents : NetnsDependents
  confirm : Bool

/-- dockerRestart.ts:50. -/
structure DockerRestartResult where
  vmid : Nat
  restarted : List Str
  exitCode : Option Int
  timedOut : Option Bool
  stderr : Str
  durationMs : Int
  warnings : List Str

/-- `'…'`, in a message. -/
def singleQuoted (s : Str) : Str :=
  Shell.singleQuote :: s ++ [Shell.singleQuote]

def exitCodeText (res : CommandResult) : Str :=
  (res.exitCode.map signedNumeral).getD "null".toList

section
variable (input : DockerRestartInput)

/-- The container as the listing has it, if it runs. -/
def restartTarget (scan : CommandResult) : Option ContainerIdentity :=
  (parseContainerIdentities scan.stdout).find? fun c => c.name == input.container

/-- The containers that lose their network. -/
def restartDependents (scan : CommandResult) : List Str :=
  ((restartTarget input scan).elim [] fun target =>
    findNetnsDependents target (parseContainerIdentities scan.stdout)).map ContainerIdentity.name

/-- Those that are restarted after the container. -/
def restartOthers (scan : CommandResult) : List Str :=
  if input.netnsDependents = .restart then restartDependents input scan else []

def restartTimeoutMs (cfg : ExecConfig) (scan : CommandResult) : Int :=
  max cfg.commandTimeoutMs
    (((input.timeoutSec.getD 10 + 20) * 1000 * ((restartOthers input scan).length + 1) : Nat) : Int)

/-- What the node is given to restart some containers. -/
def restartLine (names : List Str) : Str :=
  buildPctExecCommand input.vmid (buildDockerRestartCommand names input.timeoutSec) {}

def scanLine : Str :=
  buildPctExecCommand input.vmid (buildContainerIdentityCommand false) {}

def scanWarnings (scan : CommandResult) : List Str :=
  (if (restartTarget input scan).isSome then []
    else [singleQuoted input.container ++
      " is not running; docker restart will start it.".toList]) ++
  (if restartDependents input scan ≠ [] ∧ input.netnsDependents = .ignore then
    ["Network-namespace dependents NOT restarted and likely without networking: ".toList ++
      commaJoin (restartDependents input scan) ++ ['.']]
  else [])

/-- dockerRestart.ts:128. -/
def restartRecord (cfg : ExecConfig) (scan : CommandResult) (restarted : List Str)
    (last : CommandResult) : AuditFields where
  tool := .dockerRestart
  host := some cfg.host
  vmid := some input.vmid
  container := some input.container
  containerId := (restartTarget input scan).map ContainerIdentity.id
  cmd := some ("docker restart ".toList ++
    Integrity.joinWith ' ' (input.container :: restartOthers input scan))
  hashScope := some "unknown".toList
  exitCode := some last.exitCode
  signal := last.signal
  timedOut := last.timedOut
  confirmGated := some true
  isRevertible := some false
  note := some ("docker_restart ".toList ++ input.container ++ " (CT".toList ++
    numeral input.vmid ++ "); restarted: ".toList ++
    (if restarted = [] then "none".toList else commaJoin restarted) ++
    (if restartDependents input scan = [] then []
      else "; netns dependents (".toList ++ input.netnsDependents.text ++ "): ".toList ++
        commaJoin (restartDependents input scan)))

/-- After the container itself: its dependents, if they are to follow (dockerRestart.ts:115). -/
def restartRest (cfg : ExecConfig) (scan first : CommandResult) :
    ShellTool (List Str × CommandResult × List Str) :=
  if first.exitCode ≠ some 0 then pure ([], first, [])
  else if restartOthers input scan = [] then pure ([input.container], first, [])
  else do
    let last ← transportExec (restartLine input (restartOthers input scan))
      (some (restartTimeoutMs input cfg scan))
    if last.exitCode = some 0 then pure (input.container :: restartOthers input scan, last, [])
    else pure ([input.container], last, ["Restarting dependents failed (exit ".toList ++
      exitCodeText last ++ "); check ".toList ++ commaJoin (restartOthers input scan) ++ ['.']])

/-- dockerRestart.ts:60. -/
def dockerRestartHandler (cfg : ExecConfig) : ShellTool DockerRestartResult := do
  checkDockerName input.container
  if input.confirm = false then
    throw ("Refusing docker_restart of ".toList ++ singleQuoted input.container ++
      " in ".toList ++ numeral input.vmid ++ (" without confirm: true. A restart interrupts the " ++
      "running container. Re-issue with confirm: true.").toList)
  let scan ← transportExec (scanLine input) (some cfg.commandTimeoutMs)
  if scan.exitCode ≠ some 0 then
    throw ("docker inspect failed on CT".toList ++ numeral input.vmid ++ " (exit ".toList ++
      exitCodeText scan ++ "): ".toList ++ (if trim scan.stderr = [] then
        "is Docker installed and running in this container?".toList else trim scan.stderr))
  if restartDependents input scan ≠ [] ∧ input.netnsDependents = .refuse then
    throw ("Refusing docker_restart of ".toList ++ singleQuoted input.container ++
      ": it provides the network namespace for ".toList ++
      commaJoin (restartDependents input scan) ++ (", which lose networking when it restarts. " ++
      "Re-issue with netnsDependents: \"restart\" to restart them after it, or \"ignore\" to " ++
      "proceed anyway.").toList)
  let started ← clock
  let first ← transportExec (restartLine input [input.container])
    (some (restartTimeoutMs input cfg scan))
  let (restarted, last, failed) ← restartRest input cfg scan first
  let ended ← clock
  append (restartRecord input cfg scan restarted last)
  pure { vmid := input.vmid, restarted, exitCode := last.exitCode
         timedOut := if last.timedOut = some true then some true else none
         stderr := last.stderr, durationMs := ended - started
         warnings := scanWarnings input scan ++ failed }

end

/-! ## What happens in a run -/

/-- What has been answered so far: the listing, the restart of the container, and the one of
its dependents. -/
structure RestartTrail where
  scan : Option (Except Str CommandResult)
  first : Option (Except Str CommandResult)
  rest : Option (Except Str CommandResult)
  records : List AuditFields

namespace RestartTrail

def start : RestartTrail := ⟨none, none, none, []⟩

/-- The calls come in this order. -/
def next (s : RestartTrail) :
    (c : ToolCall ShellCall) → ToolAnswer (fun _ => CommandResult) c → RestartTrail
  | .op _, answer =>
    if s.scan.isNone then { s with scan := some answer }
    else if s.first.isNone then { s with first := some answer }
    else { s with rest := some answer }
  | .append record, _ => { s with records := s.records ++ [record] }
  | _, _ => s

section
variable (input : DockerRestartInput) (cfg : ExecConfig)

/-- The container may be restarted: it was confirmed, and a caller who refuses to cut others
off their network cuts off none. -/
structure MayRestart (scan : CommandResult) : Prop where
  confirmed : input.confirm = true
  listed : scan.exitCode = some 0
  spared : input.netnsDependents = .refuse → restartDependents input scan = []

/-- The dependents follow, when they are to, and once the container is up. -/
structure MayFollow (scan first : CommandResult) : Prop where
  asked : input.netnsDependents = .restart
  up : first.exitCode = some 0
  some : restartDependents input scan ≠ []

/-- What the record says was restarted, and by which command it was found. -/
inductive Settled (scan first : CommandResult) :
    Option (Except Str CommandResult) → List Str → CommandResult → Prop
  | down (h : first.exitCode ≠ some 0) : Settled scan first none [] first
  | alone (h : first.exitCode = some 0) (hnone : restartOthers input scan = []) :
    Settled scan first none [input.container] first
  | followed (last : CommandResult) (h : MayFollow input scan first)
    (hlast : last.exitCode = some 0) :
    Settled scan first (some (.ok last)) (input.container :: restartDependents input scan) last
  | stranded (last : CommandResult) (h : MayFollow input scan first)
    (hlast : last.exitCode ≠ some 0) :
    Settled scan first (some (.ok last)) [input.container] last

/-- Which calls may be made. -/
def allowed (s : RestartTrail) : ToolCall ShellCall → Prop
  | .op c =>
    (s.scan = none ∧ input.confirm = true ∧ c.command = scanLine input) ∨
    (∃ scan, s.scan = some (.ok scan) ∧ s.first = none ∧ MayRestart input scan ∧
      c.command = restartLine input [input.container]) ∨
    ∃ scan first, s.scan = some (.ok scan) ∧ s.first = some (.ok first) ∧ s.rest = none ∧
      MayFollow input scan first ∧ c.command = restartLine input (restartDependents input scan)
  | .append record => s.records = [] ∧ ∃ scan first restarted last, s.scan = some (.ok scan) ∧
    s.first = some (.ok first) ∧ Settled input scan first s.rest restarted last ∧
      record = restartRecord input cfg scan restarted last
  | .clock => True
  | _ => False

def monitor : Monitor (ToolCall ShellCall) (ToolAnswer fun _ => CommandResult) RestartTrail where
  next := next
  allowed := allowed input cfg

/-- How a run ends: restarted and on record once, or in an error, where the container was not
restarted or the answer to a restart was lost, and nothing is on record. -/
def Ends (s : RestartTrail) : Outcome Str DockerRestartResult → Prop
  | .returned result => s.records.length = 1 ∧ ∃ scan first last, s.scan = some (.ok scan) ∧
    s.first = some (.ok first) ∧ Settled input scan first s.rest result.restarted last ∧
      result.exitCode = last.exitCode
  | .thrown e => s.records = [] ∧ (s.first = none ∨ s.first = some (.error e) ∨
    s.rest = some (.error e))
  | .unfinished => False

end

variable {input : DockerRestartInput} {cfg : ExecConfig} {scan first : CommandResult}

theorem restartOthers_of_ne (h : restartOthers input scan ≠ []) :
    input.netnsDependents = .restart ∧ restartOthers input scan = restartDependents input scan := by
  unfold restartOthers at h ⊢
  split
  · next hasked => exact ⟨hasked, rfl⟩
  · next hasked =>
    rw [if_neg hasked] at h
    exact absurd rfl h

/-- The state before the dependents' turn. -/
def afterFirst (scan first : CommandResult) : RestartTrail :=
  ⟨some (.ok scan), some (.ok first), none, []⟩

theorem meets_restartRest
    {post : RestartTrail → Outcome Str (List Str × CommandResult × List Str) → Prop}
    (hthrown : ∀ e, post { afterFirst scan first with rest := some (.error e) } (.thrown e))
    (hsettled : ∀ rest restarted last failed, Settled input scan first rest restarted last →
      post { afterFirst scan first with rest := rest } (.returned (restarted, last, failed))) :
    (monitor input cfg).Meets post (afterFirst scan first) (restartRest input cfg scan first) := by
  refine Monitor.meets_ite.mpr ⟨fun hdown => hsettled none _ _ _ (.down hdown), fun hup => ?_⟩
  refine Monitor.meets_ite.mpr ⟨fun hnone => hsettled none _ _ _ (.alone (not_not.mp hup) hnone),
    fun hothers => ?_⟩
  obtain ⟨hasked, hsame⟩ := restartOthers_of_ne hothers
  have hfollow : MayFollow input scan first := ⟨hasked, not_not.mp hup, hsame ▸ hothers⟩
  rw [hsame]
  refine Monitor.meets_bind.mpr (meets_perform.mpr
    ⟨.inr (.inr ⟨scan, first, rfl, rfl, rfl, hfollow, rfl⟩), fun last => ?_, fun e => hthrown e⟩)
  refine Monitor.meets_ite.mpr ⟨fun hlast => ?_, fun hlast => ?_⟩
  · exact hsettled (some (.ok last)) _ _ _ (.followed last hfollow hlast)
  · exact hsettled (some (.ok last)) _ _ _ (.stranded last hfollow hlast)

theorem meets_dockerRestartHandler (input : DockerRestartInput) (cfg : ExecConfig) :
    (monitor input cfg).Meets (Ends input) start (dockerRestartHandler input cfg) := by
  have hname : (monitor input cfg).Ignores False start (checkDockerName input.container) :=
    Monitor.ignores_ite (Monitor.ignores_pure ()) (Monitor.ignores_throw _)
  refine hname.meets_bind (fun _ => ?_) (fun e => ⟨rfl, .inl rfl⟩) False.elim
  refine Monitor.meets_ite.mpr ⟨fun _ => ⟨rfl, .inl rfl⟩, fun hconfirm => ?_⟩
  have hconfirmed : input.confirm = true := Bool.not_eq_false _ ▸ hconfirm
  refine Monitor.meets_bind.mpr (meets_perform.mpr
    ⟨.inl ⟨rfl, hconfirmed, rfl⟩, fun scan => ?_, fun e => ⟨rfl, .inl rfl⟩⟩)
  refine Monitor.meets_ite.mpr ⟨fun _ => ⟨rfl, .inl rfl⟩, fun hlisted => ?_⟩
  refine Monitor.meets_ite.mpr ⟨fun _ => ⟨rfl, .inl rfl⟩, fun hspared => ?_⟩
  -- From here on, a caller who refuses cuts off none.
  have hmay : MayRestart input scan := by
    refine ⟨hconfirmed, not_not.mp hlisted, fun hrefuse => ?_⟩
    by_contra hsome
    exact hspared ⟨hsome, hrefuse⟩
  refine Monitor.meets_bind.mpr (meets_clock.mpr ⟨trivial, fun started => ?_⟩)
  refine Monitor.meets_bind.mpr (meets_perform.mpr
    ⟨.inr (.inl ⟨scan, rfl, rfl, hmay, rfl⟩), fun first => ?_, fun e => ⟨rfl, .inr (.inl rfl)⟩⟩)
  refine Monitor.meets_bind.mpr (meets_restartRest (fun e => ⟨rfl, .inr (.inr rfl)⟩)
    fun rest restarted last failed hsettled => ?_)
  refine Monitor.meets_bind.mpr (meets_clock.mpr ⟨trivial, fun ended => ?_⟩)
  refine Monitor.meets_bind.mpr (meets_append.mpr
    ⟨⟨rfl, scan, first, restarted, last, rfl, rfl, hsettled, rfl⟩, ?_⟩)
  exact ⟨rfl, scan, first, last, rfl, rfl, hsettled, rfl⟩

end RestartTrail

end HomelabMcp.Tools
