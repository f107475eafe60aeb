import HomelabMcp.Docker.ComposeFile
import HomelabMcp.Docker.Health
import HomelabMcp.Guardrails.PathValidation
import HomelabMcp.Guests.SnapshotTools

/-!
# Planning the update of one compose service (composeUpdate.ts)

The operations of `compose_update` are commands in the container that hosts the
Docker daemon. `resolveUpdate` is all that comes before the pull: it reads, and
refuses, and ends in the `Plan` of what is updated.

- `resolveTarget_spec`: the container that a plan is about.
-/

namespace HomelabMcp.Docker

open SlashPath Text Integrity Audit Guardrails Program Tools Guests
open Quoting (shSingleQuote)

/-! ## Commands -/

/-- The compose project a command is about, and how its file is found. -/
structure ComposeProject where
  path : Str
  project : Str
  envFiles : List Str
  deriving DecidableEq

inductive DockerCommand
  | identities
  | composeConfig (p : ComposeProject)
  | envArgs (container : Str)
  | probe (url : Str) (secs : Nat)
  | imageInfo (ids : List Str)
  | imageId (ref : Str)
  | pull (p : ComposeProject) (service : Str)
  | tag (source target : Str)
  | up (p : ComposeProject) (pullNever : Bool) (service : Str)
  | healthSample (container : Str)
  deriving DecidableEq

/-- `posixDirname` (dockerUpdate.ts:659). -/
def posixDirname (p : Str) : Str :=
  if parent p = [] then ['/'] else parent p

/-- dockerUpdate.ts:675. -/
def buildComposeCommand (p : ComposeProject) (args : Str) : Str :=
  "cd ".toList ++ shSingleQuote (posixDirname p.path) ++ " && docker compose -p ".toList ++
    p.project ++ " -f ".toList ++ shSingleQuote p.path ++
    (p.envFiles.flatMap fun f => " --env-file ".toList ++ shSingleQuote f) ++ ' ' :: args

/-- dockerUpdate.ts:231. -/
def buildImageInfoCommand (imageIds : List Str) : Str :=
  match imageIds.filter isDigest with
  | [] => "true".toList
  | ids => "docker image inspect --format ".toList ++
      shSingleQuote (joinWith tab (["\x7b\x7b.Id\x7d\x7d", "\x7b\x7bjson .RepoDigests\x7d\x7d",
        "\x7b\x7bjson .Config\x7d\x7d"].map String.toList)) ++ ' ' :: joinWith ' ' ids

/-- `HEALTH_FORMAT`. -/
def healthFormat : Str :=
  joinWith tab (["\x7b\x7b.State.Status\x7d\x7d",
    "\x7b\x7bif .State.Health\x7d\x7d\x7b\x7b.State.Health.Status\x7d\x7d" ++
      "\x7b\x7belse\x7d\x7dnone\x7b\x7bend\x7d\x7d",
    "\x7b\x7b.RestartCount\x7d\x7d", "\x7b\x7b.State.Restarting\x7d\x7d",
    "\x7b\x7b.Image\x7d\x7d"].map String.toList)

/-- The command in the container. -/
def DockerCommand.inner : DockerCommand → Str
  | .identities => buildContainerIdentityCommand false
  | .composeConfig p => buildComposeCommand p "config --format json".toList
  | .envArgs container => "docker inspect --format ".toList ++
      shSingleQuote (joinWith tab (["\x7b\x7bjson .Config.Env\x7d\x7d",
        "\x7b\x7bjson .Args\x7d\x7d"].map String.toList)) ++ ' ' :: shSingleQuote container
  | .probe url secs => ("curl -k -s -S -o /dev/null " ++
      "-w '%\x7bhttp_code\x7d %\x7bsize_download\x7d %\x7btime_total\x7d' --max-time ").toList ++
      numeral secs ++ " -- ".toList ++ shSingleQuote url
  | .imageInfo ids => buildImageInfoCommand ids
  | .imageId ref => "docker image inspect --format '\x7b\x7b.Id\x7d\x7d' ".toList ++ ref
  | .pull p service => buildComposeCommand p ("pull ".toList ++ service)
  | .tag source target => "docker tag ".toList ++ source ++ ' ' :: target
  | .up p pullNever service => buildComposeCommand p ("up -d --no-deps ".toList ++
      (if pullNever then "--pull never ".toList else []) ++ service)
  | .healthSample container => "docker inspect --format ".toList ++ shSingleQuote healthFormat ++
      ' ' :: shSingleQuote container

/-- The string that is executed on the node (pctHelpers.ts:60). -/
def DockerCommand.text (vmid : Nat) (cmd : DockerCommand) : Str :=
  "pct exec ".toList ++ numeral vmid ++ " -- bash -c ".toList ++ shSingleQuote cmd.inner

/-- The commands that change images or containers. -/
def DockerCommand.mutates : DockerCommand → Bool
  | .pull _ _ | .tag _ _ | .up _ _ _ => true
  | .identities | .composeConfig _ | .envArgs _ | .probe _ _ | .imageInfo _ | .imageId _
  | .healthSample _ => false

abbrev DockerCall := ToolCall DockerCommand

abbrev DockerAnswer := ToolAnswer fun _ : DockerCommand => ExecResult

abbrev ComposeTool := Tool fun _ : DockerCommand => ExecResult

/-! ## Input and result -/

/-- What the platform's `URL` makes of a string. -/
structure Url where
  protocol : Str
  hostname : Str
  port : Str
  host : Str

/-- Functions of libraries: nothing is assumed of them. -/
structure Libraries where
  parseYaml : Str → Except Str Json
  parseUrl : Str → Option Url

structure UpdateProbe where
  url : Str
  expectStatus : Option Int

structure ComposeUpdateInput where
  vmid : Nat
  composePath : Str
  service : Str
  healthTimeoutSec : Option Nat
  stableSec : Option Nat
  probe : Option UpdateProbe
  allowWatchtowerManaged : Bool
  confirm : Bool
  overrideCircuitBreaker : Bool

/-- `cfg.docker`, as far as an update reads it. -/
structure DockerConfig where
  updateHealthTimeoutSec : Nat
  updateHealthTimeoutMaxSec : Nat
  updateStableSec : Nat

structure ComposeConfig where
  host : Str
  pathAllowlist : Option (List Str)
  pathDenylist : List Str
  commandTimeoutMs : Nat
  docker : Option DockerConfig

/-- What `resolveUpdate` found (composeUpdate.ts:324). -/
structure Plan where
  target : ContainerIdentity
  compose : ComposeProject
  fileRef : Str
  /-- The file names another image than the container was created from. -/
  refMismatch : Bool
  oldRepoDigest : Option Str
  currentVersion : Option Str
  holdTag : Str
  warnings : List Str

/-! ## Checks -/

/-- `assertComposeService` (dockerUpdate.ts:655). -/
def assertComposeService (s : Str) : Except Str Unit :=
  if (s.head?.map Char.isAlphanum).getD false = true ∧
      (s.all fun c => c.isAlphanum || c == '_' || c == '.' || c == '-') = true ∧
      s.length ≤ 100 then .ok ()
  else .error ("Invalid compose service name: ".toList ++ Json.quote s ++ ['.'])

def isLowerAlnum (c : Char) : Bool :=
  c.isLower || c.isDigit

/-- `assertComposeProject` (dockerUpdate.ts:651). -/
def assertComposeProject (p : Str) : Except Str Unit :=
  if (p.head?.map isLowerAlnum).getD false = true ∧
      (p.all fun c => isLowerAlnum c || c == '_' || c == '-') = true then .ok ()
  else .error ("Invalid compose project name: ".toList ++ Json.quote p ++ ['.'])

/-- `parseProbeUrl` (probes.ts:46); the error, when there is one. -/
def parseProbeUrl (libs : Libraries) (url : Str) : Option Str :=
  match libs.parseUrl url with
  | none => some ("not a valid URL: ".toList ++ Json.quote url)
  | some u =>
    if u.protocol ≠ "http:".toList ∧ u.protocol ≠ "https:".toList then
      some ("unsupported protocol ".toList ++ u.protocol ++ " (http/https only)".toList)
    else none

def inQuotes (s : Str) : Str :=
  quoteChar :: s ++ [quoteChar]

/-- composeUpdate.ts:145. -/
def updateUnconfirmed (input : ComposeUpdateInput) : Str :=
  "Refusing compose_update of ".toList ++ inQuotes input.service ++ " in ".toList ++
    numeral input.vmid ++ (" without confirm: true. The service's container is recreated (brief " ++
      "outage). Re-issue with confirm: true.").toList

/-- The first checks of composeUpdate.ts:143, which ask nothing of the node. -/
def checkInput (libs : Libraries) (cfg : ComposeConfig) (input : ComposeUpdateInput) :
    Except Str Unit := do
  if !input.confirm then .error (updateUnconfirmed input)
  if let some reason := validatePath input.composePath cfg.pathAllowlist (some cfg.pathDenylist) then
    .error ("Invalid compose file path: ".toList ++ reason)
  assertComposeService input.service
  if let some probe := input.probe then
    if let some e := parseProbeUrl libs probe.url then
      .error ("Invalid probe url: ".toList ++ e)

/-! ## The container and its image -/

/-- The running containers of the service that came from this file. -/
def candidates (input : ComposeUpdateInput) (running : List ContainerIdentity) :
    List ContainerIdentity :=
  (running.filter fun c => c.composeService == input.service).filter fun c =>
    configFilesInclude c.composeConfigFiles input.composePath

/-- Where containers of the service come from otherwise. -/
def elsewhere (input : ComposeUpdateInput) (running : List ContainerIdentity) : List Str :=
  (running.filter fun c => c.composeService == input.service).map fun c =>
    c.name ++ " (".toList ++ (if c.composeConfigFiles = [] then "no config_files label".toList
      else c.composeConfigFiles) ++ [')']

/-- composeUpdate.ts:211. -/
def resolveTarget (input : ComposeUpdateInput) (running : List ContainerIdentity) :
    Except Str ContainerIdentity :=
  match candidates input running with
  | [] =>
    .error ("No running container for service ".toList ++ inQuotes input.service ++
      " was created from ".toList ++ input.composePath ++ ['.'] ++
      (if elsewhere input running = [] then []
        else " Same service name found from other files: ".toList ++
          commaJoin (elsewhere input running) ++ ['.']) ++
      (" compose_update needs a running container to roll back to; use compose_discover for the " ++
        "right path, or compose_redeploy for a first deploy.").toList)
  | [target] => .ok target
  | targets =>
    .error ("Service ".toList ++ inQuotes input.service ++ " has ".toList ++ numeral targets.length ++
      " running containers (".toList ++ commaJoin (targets.map fun c => c.name) ++
      "); scaled services are out of scope for compose_update v1.".toList)

/-- `Refusing compose_update of ...`. -/
def refusing (input : ComposeUpdateInput) : Str :=
  "Refusing compose_update of ".toList ++ inQuotes input.service ++ ": ".toList

/-- The image of the service in the file, when it can be updated (composeUpdate.ts:257). -/
def resolveRef (input : ComposeUpdateInput) (model : ComposeModel) : Except Str Str :=
  match model.find? fun s => s.name == input.service with
  | none => .error ("Service ".toList ++ inQuotes input.service ++ " is not defined in ".toList ++
      input.composePath ++ ['.'])
  | some svc =>
    if svc.rawKeys.contains "build".toList then
      .error (refusing input ++ "it has a build: section (built locally, nothing to pull).".toList)
    else
      match svc.image with
      | none | some [] => .error (refusing input ++ "no image: in the compose file.".toList)
      | some fileRef => do
        assertImageRef fileRef
        if isDigestPinned fileRef then
          .error (refusing input ++ fileRef ++
            (" is digest-pinned, so there is nothing to pull. Change the pin by editing the " ++
              "compose file (pct_edit_file / docker_edit_file), then compose_redeploy.").toList)
        match (groupByNetns model).find? fun g =>
            g.provider == some input.service && g.dependents != [] with
        | some provider =>
          .error (refusing input ++ "it provides the network namespace for ".toList ++
            commaJoin provider.dependents ++
            (". Recreating a netns provider in place deadlocks (ADR-012); do a full down/up of " ++
              "the stack instead (compose_redeploy after stopping the dependents).").toList)
        | none => .ok fileRef

/-- composeUpdate.ts:318. -/
def refsDiffer (runRef fileRef : Str) : Bool :=
  let run := parseImageRef runRef
  let file := parseImageRef fileRef
  decide (run.name ≠ file.name) ||
    decide (run.tag.getD "latest".toList ≠ file.tag.getD "latest".toList)

/-- The container is the only one of its service from this file. -/
theorem resolveTarget_spec {input : ComposeUpdateInput} {running : List ContainerIdentity}
    {target : ContainerIdentity} (h : resolveTarget input running = .ok target) :
    target ∈ running ∧ target.composeService = input.service ∧
      configFilesInclude target.composeConfigFiles input.composePath = true ∧
      ∀ c ∈ candidates input running, c = target := by
  unfold resolveTarget at h
  split at h
  · cases h
  · next found hfound =>
    cases h
    have hmem : target ∈ candidates input running := hfound ▸ List.mem_singleton_self _
    unfold candidates at hmem
    rw [List.mem_filter, List.mem_filter, beq_iff_eq] at hmem
    refine ⟨hmem.1.1, hmem.1.2, hmem.2, fun c hc => ?_⟩
    rw [hfound] at hc
    exact List.mem_singleton.mp hc
  · cases h

/-- The file names the reference for the service. -/
theorem resolveRef_spec {input : ComposeUpdateInput} {model : ComposeModel} {ref : Str}
    (h : resolveRef input model = .ok ref) :
    ∃ svc ∈ model, svc.name = input.service ∧ svc.image = some ref := by
  unfold resolveRef at h
  split at h
  · cases h
  · next svc hsvc =>
    refine ⟨svc, List.mem_of_find?_eq_some hsvc, by simpa using List.find?_some hsvc, ?_⟩
    split at h
    · cases h
    · split at h
      · cases h
      · cases h
      · next _ himage =>
        -- A reference that passes its checks is the one the file has.
        simp only [bind, Except.bind] at h
        split at h
        · cases h
        · split at h
          · cases h
          · split at h
            · cases h
            · cases h
              exact himage

end HomelabMcp.Docker
