import HomelabMcp.Docker.UpdatePlan

/-!
# Updating one compose service (composeUpdate.ts)

`resolveUpdate` ends in a plan. `performUpdate` carries it out: pull; hold the old
image under a tag of the server; recreate; and when the new container is not healthy,
tag the held image back and recreate from it.
-/

namespace HomelabMcp.Docker

open SlashPath Text Integrity Audit Guardrails Program Tools Guests

inductive UpdateOutcome
  | alreadyCurrent
  | updated
  | rolledBack
  | rollbackOkProbeFailed
  | rollbackFailed
  | failedNeedsFileRevert
  | pullFailed
  deriving DecidableEq, Repr

def UpdateOutcome.text : UpdateOutcome → Str
  | .alreadyCurrent => "already-current".toList
  | .updated => "updated".toList
  | .rolledBack => "rolled-back".toList
  | .rollbackOkProbeFailed => "rollback-ok-probe-failed".toList
  | .rollbackFailed => "rollback-failed".toList
  | .failedNeedsFileRevert => "failed-needs-file-revert".toList
  | .pullFailed => "pull-failed".toList

structure HealthReport where
  mode : HealthMode
  passed : Bool
  elapsedMs : Int
  detail : Str
  probeOnly : Bool := false
  deriving DecidableEq

structure UpdateStep where
  step : Str
  exitCode : Option Int
  stderr : Option Str
  deriving DecidableEq

/-- composeUpdate.ts:108. -/
structure ComposeUpdateResult where
  plan : Plan
  outcome : UpdateOutcome
  newImageId : Option Str
  newVersion : Option Str
  steps : List UpdateStep
  warnings : List Str
  health : Option HealthReport := none
  rollbackHealth : Option HealthReport := none
  existingHoldImageId : Option Str := none
  nextSteps : List Str := []

/-! ## Probes -/

/-- probes.ts:87 and composeUpdate.ts:476: whether the probe is met, and what it saw. -/
structure ProbeReport where
  ok : Bool
  status : Nat
  detail : Str
  deriving DecidableEq

/-- probes.ts:100. -/
def evaluateHttpOk (status : Nat) (expectStatus : Option Int) : Bool :=
  match expectStatus with
  | some expected => decide ((status : Int) = expected)
  | none => decide (200 ≤ status ∧ status < 400)

/-- composeUpdate.ts:476. -/
def runProbe (cfg : ComposeConfig) (probe : UpdateProbe) : ComposeTool ProbeReport := do
  let secs := max 1 (min 30 (max 1 ((cfg.commandTimeoutMs + 999) / 1000)))
  let res ← exec (.probe probe.url secs)
  let status := parseInt ((words (trim res.stdout)).headD [])
  pure {
    ok := decide (res.exitCode = some 0) && evaluateHttpOk status probe.expectStatus
    status
    detail := if status ≠ 0 then "HTTP ".toList ++ numeral status
      else "curl exit ".toList ++ Guests.exitText res.exitCode }

def wildcardIps : List Str := ["", "0.0.0.0", "::"].map String.toList

def loopbackHosts : List Str := ["127.0.0.1", "localhost", "::1", "[::1]"].map String.toList

/-- The container's ports are not its own to publish. -/
def sharesNetwork (networkMode : Str) : Bool :=
  "container:".toList.isPrefixOf networkMode || "service:".toList.isPrefixOf networkMode ||
    networkMode == "host".toList

/-- dockerUpdate.ts:696. -/
def probeBindingWarning (libs : Libraries) (url : Str) (c : ContainerIdentity) : Option Str := do
  let u ← libs.parseUrl url
  let host := toLowerCase u.hostname
  let isIp := (host != [] && host.all fun ch => ch.isDigit || ch == '.') || host.contains ':' ||
    host.head? == some '['
  if sharesNetwork c.networkMode ∨ (!isIp && host != "localhost".toList) then none
  else
    let port := if u.port ≠ [] then u.port
      else if u.protocol = "https:".toList then "443".toList else "80".toList
    let onPort := c.publishedPorts.filter fun p => p.hostPort == port
    let all := c.publishedPorts.map fun p =>
      (if p.hostIp = [] then "0.0.0.0".toList else p.hostIp) ++ ':' :: p.hostPort
    let listing := if all ≠ [] then "published bindings: ".toList ++ commaJoin all.eraseDups
      else "it publishes no ports".toList
    if onPort = [] then
      some ("probe ".toList ++ u.host ++ " does not match any port ".toList ++ c.name ++
        " publishes (".toList ++ listing ++ "); the probe may be wrong.".toList)
    else if onPort.any fun p => wildcardIps.contains p.hostIp || toLowerCase p.hostIp == host ||
        (loopbackHosts.contains host && loopbackHosts.contains p.hostIp) then none
    else
      some ("probe targets ".toList ++ u.host ++ ", but ".toList ++ c.name ++
        " publishes port ".toList ++ port ++ " only on ".toList ++
        commaJoin (onPort.map fun p => p.hostIp) ++ " (".toList ++ listing ++
        "); the probe may be wrong.".toList)

/-! ## Before the pull -/

/-- imageUpdates.ts:123. -/
def loadWatchtower (running : List ContainerIdentity) : ComposeTool (Option WatchtowerInfo) :=
  match running.find? fun c => isWatchtowerImage c.ref && c.state == "running".toList with
  | none => pure none
  | some wt => do
    let res ← exec (.envArgs wt.name)
    -- A Watchtower that cannot be read is taken to manage everything.
    if res.exitCode ≠ some 0 then pure (some ⟨wt.name, none, false, true⟩)
    else pure (some (parseWatchtowerConfig wt.name res.stdout))

/-- The refusal of a tripped breaker; a peek takes no slot (composeUpdate.ts:184). -/
def peekGate (cfg : ComposeConfig) (hasBreaker : Bool) (input : ComposeUpdateInput) :
    ComposeTool Unit :=
  let key := rollbackTargetKey (.compose input.vmid input.service)
  if hasBreaker && !input.overrideCircuitBreaker then do
    let verdict ← peek key
    refuseTripped key
      { tool := .composeUpdate, host := some cfg.host, vmid := some input.vmid
        path := some input.composePath } verdict
  else pure ()

/-- `r.stderr.trim().slice(0, 500)`. -/
def shortStderr (res : ExecResult) : Str :=
  (trim res.stderr).take 500

/-- The compose model, as the node resolves it (composeUpdate.ts:244). -/
def readModel (libs : Libraries) (p : ComposeProject) : ComposeTool ComposeModel := do
  let res ← exec (.composeConfig p)
  if res.exitCode ≠ some 0 then
    throw ("docker compose config failed (exit ".toList ++ Guests.exitText res.exitCode ++ "): ".toList ++
      shortStderr res)
  else
    match parseCompose libs.parseYaml res.stdout with
    | .error e => throw ("Could not read the resolved compose model: ".toList ++ e)
    | .ok model => pure model

/-- composeUpdate.ts:281: the warning, when an update under Watchtower is allowed. -/
def checkWatchtower (input : ComposeUpdateInput) (running : List ContainerIdentity)
    (target : ContainerIdentity) : ComposeTool (List Str) := do
  let watchtower ← loadWatchtower running
  match watchtower with
  | none => pure []
  | some wt =>
    if !watchtowerManages (some wt) target then pure []
    else
      let why := "Watchtower (".toList ++ wt.container ++ ") also updates ".toList ++
        inQuotes target.name ++
        (if wt.cleanup then " and deletes replaced images (CLEANUP)".toList else []) ++
        "; it can re-pull over a rollback.".toList
      if !input.allowWatchtowerManaged then
        throw (refusing input ++ why ++ (" Remove the com.centurylinklabs.watchtower.enable label " ++
          "from the service to hand it to compose_update, or re-issue with " ++
          "allowWatchtowerManaged: true.").toList)
      else pure [why ++ " Proceeding because allowWatchtowerManaged: true.".toList]

/-- composeUpdate.ts:300: a probe that fails already cannot judge the update. -/
def checkProbe (libs : Libraries) (cfg : ComposeConfig) (input : ComposeUpdateInput)
    (running : List ContainerIdentity) (target : ContainerIdentity) : ComposeTool (List Str) :=
  match input.probe with
  | none => pure []
  | some probe => do
    let bindingWarning := probeBindingWarning libs probe.url (netnsHolder target running)
    let baseline ← runProbe cfg probe
    if !baseline.ok then
      throw (refusing input ++ "the probe ".toList ++ probe.url ++
        " already fails against the running image (".toList ++ baseline.detail ++
        "), so it cannot judge the update. ".toList ++
        (bindingWarning.elim [] fun w => "Likely cause: ".toList ++ w ++ [' ']) ++
        ("Fix the probe URL, or drop probe to rely on the HEALTHCHECK/stability gate. Nothing was " ++
          "changed.").toList)
    else pure bindingWarning.toList

/-- The tag that will hold the image the container runs (composeUpdate.ts:333). -/
def planHold (target : ContainerIdentity) (fileRef service : Str) : Str :=
  holdTagFor (if "sha256:".toList.isPrefixOf target.ref then fileRef else target.ref) service

/-- The plan, once nothing is left to refuse (composeUpdate.ts:316). -/
def makePlan (target : ContainerIdentity) (p : ComposeProject) (service fileRef : Str)
    (warnings : List Str) : ComposeTool Plan :=
  if !isDigest target.imageId then
    throw ("Unexpected image id for ".toList ++ target.name ++ ": ".toList ++
      Json.quote target.imageId ++ "; refusing to continue.".toList)
  else do
    let res ← exec (.imageInfo [target.imageId])
    let oldInfo := imageInfoOf res.stdout target.imageId
    let holdTag := planHold target fileRef service
    let _ ← orThrow (assertImageRef holdTag)
    pure { target, compose := p, fileRef, refMismatch := refsDiffer target.ref fileRef
           oldRepoDigest := localDigestFor target.ref ((oldInfo.map fun i => i.repoDigests).getD [])
           currentVersion := oldInfo.bind fun i => i.version, holdTag, warnings }

/-- composeUpdate.ts:205: find the container, read the file, and plan. -/
def planUpdate (libs : Libraries) (cfg : ComposeConfig) (input : ComposeUpdateInput) :
    ComposeTool Plan := do
  let scan ← exec .identities
  if scan.exitCode ≠ some 0 then
    throw ("docker inspect failed on CT".toList ++ numeral input.vmid ++ " (exit ".toList ++
      Guests.exitText scan.exitCode ++ "): ".toList ++ trim scan.stderr)
  else
    let running := parseContainerIdentities scan.stdout
    let target ← orThrow (resolveTarget input running)
    let _ ← orThrow (assertComposeProject target.composeProject)
    let (envFiles, rejected) := parseEnvFileLabel target.composeEnvFiles
    let envWarnings := rejected.map fun r => "Ignored environment_file entry ".toList ++
      Json.quote r ++ " (not a plain absolute path).".toList
    let p : ComposeProject := ⟨input.composePath, target.composeProject, envFiles⟩
    let model ← readModel libs p
    let fileRef ← orThrow (resolveRef input model)
    let watchtowerWarnings ← checkWatchtower input running target
    let probeWarnings ← checkProbe libs cfg input running target
    makePlan target p input.service fileRef (envWarnings ++ watchtowerWarnings ++ probeWarnings)

/-- composeUpdate.ts:143: everything that comes before the pull. -/
def resolveUpdate (libs : Libraries) (cfg : ComposeConfig) (hasBreaker : Bool)
    (input : ComposeUpdateInput) : ComposeTool Plan := do
  let _ ← orThrow (checkInput libs cfg input)
  peekGate cfg hasBreaker input
  planUpdate libs cfg input

/-! ## The health gate -/

/-- The times of the gate, in milliseconds (composeUpdate.ts:163). -/
structure GateTimes where
  healthTimeoutMs : Int
  stableMs : Int

def gateTimes (cfg : ComposeConfig) (input : ComposeUpdateInput) : GateTimes where
  healthTimeoutMs := 1000 * (min
    (input.healthTimeoutSec.getD ((cfg.docker.map fun d => d.updateHealthTimeoutSec).getD 120))
    ((cfg.docker.map fun d => d.updateHealthTimeoutMaxSec).getD 600) : Nat)
  stableMs := 1000 *
    (input.stableSec.getD ((cfg.docker.map fun d => d.updateStableSec).getD 20) : Nat)

/-- One look at the container (composeUpdate.ts:489). -/
def sampleHealth (container : Str) (start : Int) : ComposeTool (Option HealthSample) := do
  let res ← exec (.healthSample container)
  if res.exitCode = some 0 then
    let t ← clock
    pure (parseHealthSample res.stdout (t - start))
  else pure none

/-- The loop of composeUpdate.ts:488: the verdict, and the report when time is over.
The loop is bounded by the clock alone, and `fuel` is how often it looks. -/
def pollHealth (times : GateTimes) (container expectImageId : Str) (start : Int) :
    Nat → List HealthSample → HealthVerdict → List Str →
      ComposeTool (HealthVerdict × Option HealthReport × List Str)
  | 0, _, _, _ => .unfinished
  | fuel + 1, samples, verdict, warnings => do
    let sample ← sampleHealth container start
    let warnings := warnings ++
      match sample with
      | some s =>
        if samples = [] ∧ s.imageId ≠ expectImageId then
          [container ++ " is running image ".toList ++ s.imageId ++ ", expected ".toList ++
            expectImageId ++ ['.']]
        else []
      | none => []
    let samples := samples ++ sample.toList
    let verdict := if sample.isSome then evaluateHealthPoll samples times.stableMs else verdict
    if verdict.state ≠ .pending then pure (verdict, none, warnings)
    else do
      let t ← clock
      if times.healthTimeoutMs ≤ t - start then
        let t' ← clock
        pure (verdict, some { mode := verdict.mode, passed := false, elapsedMs := t' - start
                              detail := "timed out: ".toList ++ verdict.detail }, warnings)
      else pollHealth times container expectImageId start fuel samples verdict warnings

/-- composeUpdate.ts:484. -/
def healthGate (cfg : ComposeConfig) (input : ComposeUpdateInput) (fuel : Nat)
    (container expectImageId : Str) (warnings : List Str) :
    ComposeTool (HealthReport × List Str) := do
  let times := gateTimes cfg input
  let start ← clock
  let (verdict, timedOut, warnings) ← pollHealth times container expectImageId start fuel []
    (evaluateHealthPoll [] times.stableMs) warnings
  match timedOut with
  | some report => pure (report, warnings)
  | none =>
    match verdict.state, input.probe with
    | .pass, some probe => do
      let pr ← runProbe cfg probe
      let t ← clock
      if !pr.ok then
        pure ({ mode := verdict.mode, passed := false, elapsedMs := t - start
                detail := verdict.detail ++ ", but probe ".toList ++ probe.url ++
                  " returned ".toList ++ (if pr.status ≠ 0 then numeral pr.status else pr.detail)
                probeOnly := true }, warnings)
      else
        pure ({ mode := verdict.mode, passed := true, elapsedMs := t - start
                detail := verdict.detail ++ "; probe ".toList ++ numeral pr.status }, warnings)
    | state, _ => do
      let t ← clock
      pure ({ mode := verdict.mode, passed := decide (state = .pass), elapsedMs := t - start
              detail := verdict.detail }, warnings)

/-! ## From the pull on -/

/-- `run` of composeUpdate.ts:171: the command, and its step. -/
def runStep (step : Str) (cmd : DockerCommand) : ComposeTool (ExecResult × UpdateStep) := do
  let res ← exec cmd
  pure (res, ⟨step, res.exitCode,
    if res.exitCode = some 0 then none else some (shortStderr res)⟩)

/-- `finish`: the record of a run, and its result (composeUpdate.ts:339). -/
def finish (cfg : ComposeConfig) (input : ComposeUpdateInput) (failed isRevertible : Bool)
    (result : ComposeUpdateResult) : ComposeTool ComposeUpdateResult := do
  let plan := result.plan
  append {
    tool := .composeUpdate, host := some cfg.host, vmid := some input.vmid
    container := some plan.target.name, containerId := some plan.target.id
    path := some input.composePath
    cmd := some ("docker compose -p ".toList ++ plan.compose.project ++ " pull ".toList ++
      input.service ++ " && up -d --no-deps ".toList ++ input.service)
    hashScope := some "unknown".toList
    exitCode := some ((result.steps.getLast?.map fun s => s.exitCode).getD (some 0))
    confirmGated := some true, isLargeChange := some true
    failed := if failed then some true else none
    isRevertible := if isRevertible then some true else none
    circuitBreakerOverridden := if input.overrideCircuitBreaker then some true else none
    note := some ("compose_update ".toList ++ input.service ++ " (CT".toList ++ numeral input.vmid ++
      ", project ".toList ++ plan.compose.project ++ "): ".toList ++ result.outcome.text ++
      "; ".toList ++ plan.fileRef ++ ' ' :: plan.target.imageId ++ " -> ".toList ++
      result.newImageId.getD "none".toList ++
      (if plan.currentVersion ≠ none ∨ result.newVersion ≠ none then
        " (version ".toList ++ plan.currentVersion.getD ['?'] ++ " -> ".toList ++
          result.newVersion.getD ['?'] ++ [')']
      else []) ++ "; hold ".toList ++ plan.holdTag) }
  pure result

/-- `breaker?.check(breakerKey, now())`. -/
def countRollback (hasBreaker : Bool) (input : ComposeUpdateInput) : ComposeTool Unit :=
  if hasBreaker then do
    let _ ← clock
    let _ ← check (rollbackTargetKey (.compose input.vmid input.service))
  else pure ()

/-- What a run knows once the new image is there. -/
structure Pulled where
  plan : Plan
  newImageId : Str
  newVersion : Option Str
  steps : List UpdateStep

def Pulled.result (run : Pulled) (outcome : UpdateOutcome) (warnings : List Str) :
    ComposeUpdateResult where
  plan := run.plan
  outcome := outcome
  newImageId := some run.newImageId
  newVersion := run.newVersion
  steps := run.steps
  warnings := warnings

/-- What to do about a file that names another image (composeUpdate.ts:420). -/
def revertAdvice (input : ComposeUpdateInput) (plan : Plan) : List Str :=
  ["The compose file names ".toList ++ plan.fileRef ++ " but the container was created from ".toList ++
      plan.target.ref ++ (", so the old image cannot be re-tagged under the new ref. Restore the " ++
        "file and redeploy:").toList,
    "revert_file \x7b vmid: ".toList ++ numeral input.vmid ++ ", path: ".toList ++
      quoted input.composePath ++ " \x7d (or the docker target for this file)".toList,
    "compose_update \x7b vmid: ".toList ++ numeral input.vmid ++ ", composePath: ".toList ++
      quoted input.composePath ++ ", service: ".toList ++ quoted input.service ++
      ", confirm: true \x7d".toList,
    "The previous image is held as ".toList ++ plan.holdTag ++ ['.']]

/-- Tag the held image back and recreate from it (composeUpdate.ts:438). -/
def rollBackImage (cfg : ComposeConfig) (input : ComposeUpdateInput) (fuel : Nat) (run : Pulled)
    (warnings : List Str) : ComposeTool (HealthReport × List UpdateStep × List Str) := do
  let plan := run.plan
  let (retag, retagStep) ← runStep "rollback-retag".toList (.tag plan.holdTag plan.fileRef)
  if retag.exitCode ≠ some 0 then
    pure ({ mode := .stability, passed := false, elapsedMs := 0
            detail := "hold tag ".toList ++ plan.holdTag ++ " unusable: ".toList ++
              trim retag.stderr }, run.steps ++ [retagStep], warnings)
  else do
    let (reUp, reUpStep) ← runStep "rollback-recreate".toList (.up plan.compose true input.service)
    let steps := run.steps ++ [retagStep, reUpStep]
    if reUp.exitCode = some 0 then
      let (report, warnings) ←
        healthGate cfg input fuel plan.target.name plan.target.imageId warnings
      pure (report, steps, warnings)
    else
      pure ({ mode := .stability, passed := false, elapsedMs := 0
              detail := "rollback up -d failed".toList }, steps, warnings)

/-- What a rollback leaves to say (composeUpdate.ts:458). -/
def rollbackWarnings (plan : Plan) (input : ComposeUpdateInput) (mode : HealthMode)
    (rolledBack probeOnlyBoth : Bool) : List Str :=
  (if rolledBack || probeOnlyBoth then
    ["Local tag ".toList ++ plan.fileRef ++ (" now points at the previous image again (it disagrees " ++
      "with the registry until the next deliberate update). Rollback restores the image, not " ++
      "volume data a new version may have migrated.").toList]
  else []) ++
  if probeOnlyBoth then
    ["The probe ".toList ++ (input.probe.map fun p => p.url).getD [] ++
      " failed against both images while both passed the ".toList ++ mode.text ++
      (" gate, so the probe URL may be wrong. The previous image is running. The new image may " ++
        "have been fine: fix the probe and re-run.").toList]
  else []

/-- The failure paths (composeUpdate.ts:411). -/
def recoverUpdate (cfg : ComposeConfig) (hasBreaker : Bool) (input : ComposeUpdateInput)
    (fuel : Nat) (run : Pulled) (health : HealthReport) (warnings : List Str) :
    ComposeTool ComposeUpdateResult :=
  if run.plan.refMismatch then do
    countRollback hasBreaker input
    finish cfg input true false { run.result .failedNeedsFileRevert warnings with
      health := some health, nextSteps := revertAdvice input run.plan }
  else do
    let (rollbackHealth, steps, warnings) ← rollBackImage cfg input fuel run warnings
    let rolledBack := rollbackHealth.passed
    let probeOnlyBoth := health.probeOnly && rollbackHealth.probeOnly
    if !probeOnlyBoth then countRollback hasBreaker input
    let warnings := warnings ++
      rollbackWarnings run.plan input health.mode rolledBack probeOnlyBoth
    let outcome : UpdateOutcome :=
      if rolledBack then .rolledBack
      else if probeOnlyBoth then .rollbackOkProbeFailed else .rollbackFailed
    finish cfg input (decide (outcome = .rollbackFailed)) false
      { run.result outcome warnings with
        steps, health := some health, rollbackHealth := some rollbackHealth }

/-- Recreate from the new image, once the old one is held (composeUpdate.ts:401). -/
def recreateUpdate (cfg : ComposeConfig) (hasBreaker : Bool) (input : ComposeUpdateInput)
    (fuel : Nat) (run : Pulled) : ComposeTool ComposeUpdateResult := do
  let plan := run.plan
  let (up, upStep) ← runStep "recreate".toList (.up plan.compose false input.service)
  let run := { run with steps := run.steps ++ [upStep] }
  let (health, warnings) ←
    if up.exitCode = some 0 then
      healthGate cfg input fuel plan.target.name run.newImageId plan.warnings
    else
      pure ({ mode := .stability, passed := false, elapsedMs := 0, detail := "up -d failed".toList },
        plan.warnings)
  if health.passed then
    finish cfg input false true { run.result .updated warnings with health := some health }
  else recoverUpdate cfg hasBreaker input fuel run health warnings

/-- The old image could not be held: the pulled tag is put back (composeUpdate.ts:391). -/
def abandonUpdate (plan : Plan) (hold : ExecResult) : ComposeTool ComposeUpdateResult := do
  let (restore, _) ← runStep "restore-ref".toList (.tag plan.target.imageId plan.fileRef)
  throw ("Could not pin the running image under ".toList ++ plan.holdTag ++ " (exit ".toList ++
    Guests.exitText hold.exitCode ++ "): ".toList ++ trim hold.stderr ++
    ". The new image was pulled but nothing was recreated".toList ++
    if restore.exitCode = some 0 then
      "; ".toList ++ plan.fileRef ++ " points at the running image again.".toList
    else
      ", and ".toList ++ plan.fileRef ++ " could not be re-pointed at the running image.".toList)

/-- The image that an existing hold tag points at (composeUpdate.ts:380). -/
def existingHold (held : ExecResult) : Option Str :=
  if held.exitCode = some 0 ∧ trim held.stdout ≠ [] then some (trim held.stdout) else none

/-- composeUpdate.ts:366: everything from the pull on. -/
def performUpdate (cfg : ComposeConfig) (hasBreaker : Bool) (input : ComposeUpdateInput)
    (fuel : Nat) (plan : Plan) : ComposeTool ComposeUpdateResult := do
  let pullFailed (steps : List UpdateStep) : ComposeTool ComposeUpdateResult :=
    finish cfg input true false
      { plan, outcome := .pullFailed, newImageId := none, newVersion := none, steps
        warnings := plan.warnings }
  let (pull, pullStep) ← runStep "pull".toList (.pull plan.compose input.service)
  if pull.exitCode ≠ some 0 then pullFailed [pullStep]
  else
    let (resolved, resolveStep) ← runStep "resolve".toList (.imageId plan.fileRef)
    if resolved.exitCode ≠ some 0 ∨ trim resolved.stdout = [] then
      pullFailed [pullStep, resolveStep]
    else
      let newImageId := trim resolved.stdout
      let info ← exec (.imageInfo [newImageId])
      let newVersion := (imageInfoOf info.stdout newImageId).bind fun i => i.version
      let run : Pulled := ⟨plan, newImageId, newVersion, [pullStep, resolveStep]⟩
      if newImageId = plan.target.imageId ∧ !plan.refMismatch then
        let held ← exec (.imageId plan.holdTag)
        finish cfg input false false { run.result .alreadyCurrent plan.warnings with
          existingHoldImageId := existingHold held }
      else
        -- A hold belongs to the run whose rollback may need it.
        let (hold, holdStep) ← runStep "hold".toList (.tag plan.target.imageId plan.holdTag)
        if hold.exitCode ≠ some 0 then abandonUpdate plan hold
        else
          recreateUpdate cfg hasBreaker input fuel
            { run with steps := run.steps ++ [holdStep] }

/-- composeUpdate.ts:135. -/
def composeUpdateHandler (libs : Libraries) (cfg : ComposeConfig) (hasBreaker : Bool)
    (input : ComposeUpdateInput) (fuel : Nat) : ComposeTool ComposeUpdateResult := do
  let plan ← resolveUpdate libs cfg hasBreaker input
  performUpdate cfg hasBreaker input fuel plan

end HomelabMcp.Docker
