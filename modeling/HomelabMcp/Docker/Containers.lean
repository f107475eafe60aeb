import HomelabMcp.Docker.ImageRef
import HomelabMcp.Tools.Quoting

/-!
# Running containers, as `docker inspect` describes them (dockerUpdate.ts)

One row a container, its fields separated by tabs. The labels that compose and
Watchtower leave on a container say which file it was made from, and who updates it.
-/

namespace HomelabMcp.Docker

open SlashPath Text
open Quoting (shSingleQuote)

/-- dockerHelpers.ts:479. -/
structure DockerPortMap where
  containerPort : Str
  hostIp : Str
  hostPort : Str
  deriving DecidableEq

structure ContainerIdentity where
  name : Str
  id : Str
  ref : Str
  imageId : Str
  state : Str
  composeProject : Str
  composeService : Str
  composeConfigFiles : Str
  watchtowerLabel : Str
  diunLabel : Str
  diunWatchRepoLabel : Str
  networkMode : Str
  composeEnvFiles : Str
  publishedPorts : List DockerPortMap
  deriving DecidableEq

/-- The text of a field that is a string in every listing. -/
def textOf (v : Option Json) : Str :=
  match v with
  | some (.str s) => s
  | some (.num literal) => literal
  | some (.bool b) => if b then "true".toList else "false".toList
  | some (.arr _) | some (.obj _) | some .null | none => []

/-- dockerHelpers.ts:556. -/
def parsePortMap : Json → List DockerPortMap
  | .obj members => members.flatMap fun m =>
    match m.2 with
    | .arr bindings => bindings.map fun b =>
      ⟨m.1, textOf (b.get? "HostIp".toList), textOf (b.get? "HostPort".toList)⟩
    | _ => []
  | _ => []

/-- dockerUpdate.ts:204. -/
def parsePortsJson (v : Option Str) : List DockerPortMap :=
  ((Json.parse (clean v)).map parsePortMap).getD []

/-- A row of the identity listing. -/
def parseIdentity (line : Str) : Option ContainerIdentity :=
  let f := List.splitOn tab line
  if trim line = [] ∨ f.length < 12 then none
  else
    let name := clean f[0]?
    some {
      name := if name.head? = some '/' then name.tail else name
      id := clean f[1]?, ref := clean f[2]?, imageId := clean f[3]?, state := clean f[4]?
      composeProject := clean f[5]?, composeService := clean f[6]?
      composeConfigFiles := clean f[7]?, watchtowerLabel := clean f[8]?
      diunLabel := clean f[9]?, diunWatchRepoLabel := clean f[10]?
      networkMode := clean f[11]?, composeEnvFiles := clean f[12]?
      publishedPorts := parsePortsJson f[13]? }

/-- dockerUpdate.ts:151; the fields stand between tabs. -/
def identityFormat : Str :=
  [tab].intercalate (["\x7b\x7b.Name\x7d\x7d", "\x7b\x7b.Id\x7d\x7d",
    "\x7b\x7b.Config.Image\x7d\x7d", "\x7b\x7b.Image\x7d\x7d", "\x7b\x7b.State.Status\x7d\x7d",
    "\x7b\x7bindex .Config.Labels \"com.docker.compose.project\"\x7d\x7d",
    "\x7b\x7bindex .Config.Labels \"com.docker.compose.service\"\x7d\x7d",
    "\x7b\x7bindex .Config.Labels \"com.docker.compose.project.config_files\"\x7d\x7d",
    "\x7b\x7bindex .Config.Labels \"com.centurylinklabs.watchtower.enable\"\x7d\x7d",
    "\x7b\x7bindex .Config.Labels \"diun.enable\"\x7d\x7d",
    "\x7b\x7bindex .Config.Labels \"diun.watch_repo\"\x7d\x7d",
    "\x7b\x7b.HostConfig.NetworkMode\x7d\x7d",
    "\x7b\x7bindex .Config.Labels \"com.docker.compose.project.environment_file\"\x7d\x7d",
    "\x7b\x7bjson .NetworkSettings.Ports\x7d\x7d"].map String.toList)

/-- dockerUpdate.ts:169; `all`: the stopped containers as well. -/
def buildContainerIdentityCommand (all : Bool) : Str :=
  "docker ps -q --no-trunc".toList ++ (if all then " -a".toList else []) ++
    " | xargs -r docker inspect --format ".toList ++ shSingleQuote identityFormat

/-- dockerUpdate.ts:178. -/
def parseContainerIdentities (output : Str) : List ContainerIdentity :=
  (lines output).filterMap parseIdentity

/-! ## Images -/

structure LocalImageInfo where
  id : Str
  repoDigests : List Str
  version : Option Str
  deriving DecidableEq

/-- The strings of a JSON array; none when it is something else. -/
def stringsOf : Option Json → List Str
  | some (.arr elements) => elements.filterMap fun
    | .str s => some s
    | _ => none
  | _ => []

/-- A label of `{{json .Config}}` (dockerUpdate.ts:238). -/
def labelOf (name : Str) (config : Str) : Option Str :=
  match ((Json.parse config).bind fun c => c.get? "Labels".toList).bind fun l => l.get? name with
  | some (.str s) => some s
  | _ => none

/-- A row of the image listing. -/
def parseImageLine (line : Str) : Option LocalImageInfo :=
  let f := List.splitOn tab line
  let id := clean f[0]?
  if trim line = [] ∨ id = [] then none
  else
    let config := clean f[2]?
    some { id, repoDigests := stringsOf (Json.parse (clean f[1]?))
           version := extractImageVersion (labelOf "org.opencontainers.image.version".toList config)
             (labelOf "build_version".toList config) }

/-- `parseImageInfo(output).get(id)`: the last row of an image counts. -/
def imageInfoOf (output id : Str) : Option LocalImageInfo :=
  (((lines output).filterMap parseImageLine).reverse.find? fun i => i.id == id)

/-! ## Watchtower -/

structure WatchtowerInfo where
  container : Str
  schedule : Option Str
  labelEnable : Bool
  cleanup : Bool
  deriving DecidableEq

/-- dockerUpdate.ts:336. -/
def isWatchtowerImage (ref : Str) : Bool :=
  (["docker.io/containrrr/watchtower", "docker.io/nickfedor/watchtower",
    "docker.io/beatkind/watchtower", "ghcr.io/containrrr/watchtower",
    "ghcr.io/nicholas-fedor/watchtower"].map String.toList).contains (normalizeImageName ref)

/-- What stands before the first `=` of an entry, and after it. -/
def cutAtEquals (entry : Str) : Str × Option Str :=
  let k := entry.takeWhile fun c => c != '='
  (k, (entry.drop k.length).tail?)

/-- `pickEnv(output, keys).env[key]` (dockerUpdate.ts:284). -/
def pickedEnv (output key : Str) : Option Str :=
  let list := stringsOf (Json.parse ((List.splitOn tab (trim output)).headD []))
  (list.reverse.map cutAtEquals).findSome? fun e =>
    if e.1 = key then some (e.2.getD []) else none

/-- `pickEnv(output, keys).args`. -/
def pickedArgs (output : Str) : List Str :=
  stringsOf (Json.parse ((List.splitOn tab (trim output))[1]?.getD []))

/-- `/^(1|true|yes|on)$/i`. -/
def truthy (v : Option Str) : Bool :=
  (["1", "true", "yes", "on"].map String.toList).contains (toLowerCase (trim (v.getD [])))

/-- The value of a flag: behind its `=`, or the next argument. -/
def argVal (flag : Str) : List Str → Option Str
  | [] => none
  | a :: rest =>
    if a = flag ∨ (flag ++ ['=']).isPrefixOf a = true then
      if a.contains '=' then (cutAtEquals a).2 else rest.head?
    else argVal flag rest

/-- dockerUpdate.ts:342. -/
def parseWatchtowerConfig (container output : Str) : WatchtowerInfo :=
  let args := pickedArgs output
  let schedule := (pickedEnv output "WATCHTOWER_SCHEDULE".toList).or
    (argVal "--schedule".toList args)
  let poll := (pickedEnv output "WATCHTOWER_POLL_INTERVAL".toList).or
    (argVal "--interval".toList args)
  { container
    schedule := schedule.or
      (match poll with
        | none | some [] => none
        | some p => some ("every ".toList ++ p ++ ['s']))
    labelEnable := truthy (pickedEnv output "WATCHTOWER_LABEL_ENABLE".toList) ||
      args.contains "--label-enable".toList
    cleanup := truthy (pickedEnv output "WATCHTOWER_CLEANUP".toList) ||
      args.contains "--cleanup".toList }

/-- dockerUpdate.ts:365. -/
def watchtowerManages (wt : Option WatchtowerInfo) (c : ContainerIdentity) : Bool :=
  match wt with
  | none => false
  | some wt =>
    if c.name = wt.container then false
    else
      let label := toLowerCase c.watchtowerLabel
      if wt.labelEnable then label == "true".toList else label != "false".toList

/-! ## Compose labels -/

/-- dockerUpdate.ts:736. -/
def configFilesInclude (composeConfigFiles composePath : Str) : Bool :=
  ((List.splitOn ',' composeConfigFiles).map trim).contains composePath

/-- dockerHelpers.ts:770: the files of the label, and what is no path of a file. -/
def parseEnvFileLabel (label : Str) : List Str × List Str :=
  (List.splitOn ',' label).foldl
    (fun acc raw =>
      let p := trim raw
      if p = [] ∨ p = "<no value>".toList then acc
      else if p.head? ≠ some '/' ∨ p.any (fun c => decide (c.toNat < 0x20)) = true ∨
          (List.splitOn '/' p).contains ['.', '.'] = true then
        (acc.1, acc.2 ++ [p])
      else if acc.1.contains p then acc
      else (acc.1 ++ [p], acc.2))
    ([], [])

/-! ## Whose network namespace -/

/-- The reference of `container:<ref>`. -/
def joinedContainer (networkMode : Str) : Option Str :=
  let rest := networkMode.drop 10
  if "container:".toList.isPrefixOf networkMode ∧ rest ≠ [] ∧ !rest.any isLineTerminator then
    some rest
  else none

/-- composeUpdate.ts:525: the container whose ports a probe would hit. -/
def netnsHolder (target : ContainerIdentity) (running : List ContainerIdentity) :
    ContainerIdentity :=
  match joinedContainer target.networkMode with
  | none => target
  | some ref =>
    (running.find? fun c => c.id == ref || c.name == ref ||
      (decide (12 ≤ ref.length) && ref.isPrefixOf c.id)).getD target

end HomelabMcp.Docker
