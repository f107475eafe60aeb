import HomelabMcp.Docker.BindMounts
import HomelabMcp.Lib.Json
import HomelabMcp.Tools.PctFiles
import HomelabMcp.Tools.Places

/-!
# Files on their way to and from containers (pctFiles.ts, dockerFiles.ts)

A file of a guest goes through a temporary file of the node. One of a Docker container goes
straight to its place in the guest, where a bind mount shows it, and else through a temporary
file of the guest as well.
-/

namespace HomelabMcp.Tools

open SlashPath Text Integrity
open Quoting (shSingleQuote)

variable {m : Type → Type} [Monad m] [MonadExceptOf Str m]

/-- `try { … } finally { … }`, for a cleanup that does not throw. -/
def tryFinally {α : Type} (body : m α) (cleanup : m Unit) : m α := do
  let outcome ← tryCatch (do
    let a ← body
    pure (Except.ok a)) fun e => pure (.error e)
  cleanup
  match outcome with
  | .ok a => pure a
  | .error e => throw e

/-- ` (exit 1): …`, as the messages end. -/
def exitText (res : ExecResult) : Str :=
  " (exit ".toList ++ (res.exitCode.map signedNumeral).getD "null".toList ++ "): ".toList ++
    trim res.stderr

/-! ## Guests -/

/-- pctFiles.ts:54. -/
def buildPctPushCommand (vmid : Nat) (tmpPath remotePath : Str) (perms : GuestPerms) : Str :=
  "pct push ".toList ++ numeral vmid ++ ' ' :: shQuote tmpPath ++ ' ' :: shQuote remotePath ++
    " --perms ".toList ++ shQuote perms.mode ++ " --user ".toList ++ numeral perms.uid ++
    " --group ".toList ++ numeral perms.gid

/-- pctFiles.ts:216: the permissions of a file that exists. -/
def statContainerPerms (transport : SshTransport m) (vmid : Nat) (remotePath : Str) :
    m (Option GuestPerms) := do
  let res ← transport.exec (buildStatCommand vmid remotePath)
  pure (if res.exitCode ≠ some 0 then none else parseStatPerms res.stdout)

def pushFromTemp (transport : SshTransport m) (vmid : Nat) (remotePath : Str) (content : Bytes)
    (perms : GuestPerms) (tmp : Str) : m Unit := do
  transport.writeFile tmp content
  let res ← transport.exec (buildPctPushCommand vmid tmp remotePath perms)
  if res.exitCode ≠ some 0 then
    throw ("pct push failed for ".toList ++ numeral vmid ++ ':' :: remotePath ++ exitText res)
  else pure ()

/-- pctFiles.ts:231. -/
def pushContainerFile (transport : SshTransport m) (vmid : Nat) (remotePath : Str)
    (content : Bytes) (perms : GuestPerms) (tempDir : Str) : m Unit := do
  let tmp ← createNodeTemp transport tempDir
  tryFinally (pushFromTemp transport vmid remotePath content perms tmp)
    (removeNodeTemp transport tmp)

/-! ## Docker containers -/

/-- dockerHelpers.ts:28; each builder checks the name first. -/
def dockerCommand (container command : Str) : m Str :=
  if Backup.validateDockerName container then pure command
  else throw ("Invalid Docker container name: ".toList ++ Json.quote container ++
    ". Names must match /^[a-zA-Z0-9][a-zA-Z0-9_.-]*$/ (Docker's own charset).".toList)

def buildDockerCpFromContainer (container containerPath lxcTmp : Str) : m Str :=
  dockerCommand container ("docker cp -L ".toList ++ container ++ ':' ::
    shSingleQuote containerPath ++ ' ' :: shSingleQuote lxcTmp)

def buildDockerCpToContainer (lxcTmp container containerPath : Str) : m Str :=
  dockerCommand container ("docker cp ".toList ++ shSingleQuote lxcTmp ++ ' ' :: container ++
    ':' :: shSingleQuote containerPath)

def buildDockerChownCommand (container : Str) (perms : GuestPerms) (containerPath : Str) : m Str :=
  dockerCommand container ("docker exec ".toList ++ shSingleQuote container ++ " chown ".toList ++
    numeral perms.uid ++ ':' :: numeral perms.gid ++ ' ' :: shSingleQuote containerPath)

def buildDockerChmodCommand (container : Str) (perms : GuestPerms) (containerPath : Str) : m Str :=
  dockerCommand container ("docker exec ".toList ++ shSingleQuote container ++ " chmod ".toList ++
    shSingleQuote perms.mode ++ ' ' :: shSingleQuote containerPath)

/-- dockerFiles.ts:47. -/
def lxcExec (transport : SshTransport m) (vmid : Nat) (inner : Str) : m ExecResult :=
  transport.exec (buildPctExecCommand vmid inner {})

/-- dockerFiles.ts:78. -/
def makeLxcTemp (transport : SshTransport m) (vmid : Nat) (tempDir : Str) : m Str := do
  let res ← lxcExec transport vmid (buildMkTempCommand tempDir)
  if res.exitCode ≠ some 0 then
    throw ("mktemp failed inside CT".toList ++ numeral vmid ++ exitText res)
  else if trim res.stdout = [] then
    throw ("mktemp returned an empty path inside CT".toList ++ numeral vmid)
  else pure (trim res.stdout)

/-- dockerFiles.ts:93. -/
def removeLxcTemp (transport : SshTransport m) (vmid : Nat) (tmpPath : Str) : m Unit :=
  tryCatch (do
    let _ ← lxcExec transport vmid (buildRmCommand tmpPath)
    pure ()) fun _ => pure ()

/-- dockerFiles.ts:106. -/
structure DockerReadResult where
  content : Option Bytes
  viaBindMount : Bool
  lxcPath : Option Str

/-- `NOT_FOUND_RE` (dockerFiles.ts:44). -/
def copyNotFound (stderr : Str) : Bool :=
  classifyPullError stderr = .notFound ∨ includes (toLowerCase stderr) "could not find".toList

/-- Out of the container into a temporary file of the guest, and on from there
(dockerFiles.ts:143). -/
def copyOut (transport : SshTransport m) (vmid : Nat)
    (container containerPath tempDir lxcTmp : Str) : m DockerReadResult := do
  let line ← buildDockerCpFromContainer container containerPath lxcTmp
  let cp ← lxcExec transport vmid line
  if cp.exitCode ≠ some 0 then
    if copyNotFound cp.stderr then pure ⟨none, false, none⟩
    else
      throw ("docker cp out of ".toList ++ container ++ ':' :: containerPath ++
        " failed".toList ++ exitText cp)
  else
    let content ← pullContainerFile transport vmid lxcTmp tempDir
    pure ⟨content, false, none⟩

/-- dockerFiles.ts:119. -/
def readDockerFile (transport : SshTransport m) (vmid : Nat) (container containerPath : Str)
    (mounts : List Docker.DockerMount) (tempDir : Str) : m DockerReadResult :=
  match Docker.resolveBindMount mounts containerPath with
  | some bind => do
    let content ← pullContainerFile transport vmid bind.lxcPath tempDir
    pure ⟨content, true, some bind.lxcPath⟩
  | none => do
    let lxcTmp ← makeLxcTemp transport vmid tempDir
    tryFinally (copyOut transport vmid container containerPath tempDir lxcTmp)
      (removeLxcTemp transport vmid lxcTmp)

/-- dockerFiles.ts:185. -/
structure DockerWriteResult where
  viaBindMount : Bool
  lxcPath : Option Str
  note : Option Str

/-- Owner and mode as they were, if they can be had back (dockerFiles.ts:245). -/
def restorePerms (transport : SshTransport m) (vmid : Nat) (container containerPath : Str) :
    Option GuestPerms → m (Option Str)
  | some perms => do
    let chownLine ← buildDockerChownCommand container perms containerPath
    let chown ← lxcExec transport vmid chownLine
    let chmodLine ← buildDockerChmodCommand container perms containerPath
    let chmod ← lxcExec transport vmid chmodLine
    if chown.exitCode ≠ some 0 ∨ chmod.exitCode ≠ some 0 then
      pure (some ("ownership/mode restoration was best-effort and may not have applied " ++
        "(stat-less image?)").toList)
    else pure none
  | none => pure (some
    "no prior perms captured — file landed with the container's default umask".toList)

/-- From the node through a temporary file of the guest into the container
(dockerFiles.ts:221). -/
def copyIn (transport : SshTransport m) (vmid : Nat) (container containerPath : Str)
    (content : Bytes) (prevPerms : Option GuestPerms) (tempDir lxcTmp : Str) :
    m DockerWriteResult := do
  pushContainerFile transport vmid lxcTmp content ⟨"600".toList, 0, 0⟩ tempDir
  let line ← buildDockerCpToContainer lxcTmp container containerPath
  let cp ← lxcExec transport vmid line
  if cp.exitCode ≠ some 0 then
    throw ("docker cp into ".toList ++ container ++ ':' :: containerPath ++ " failed".toList ++
      exitText cp)
  else
    let note ← restorePerms transport vmid container containerPath prevPerms
    pure ⟨false, none, note⟩

/-- dockerFiles.ts:198. -/
def writeDockerFile (transport : SshTransport m) (vmid : Nat) (container containerPath : Str)
    (content : Bytes) (mounts : List Docker.DockerMount) (prevPerms : Option GuestPerms)
    (newFileDefaults : GuestPerms) (tempDir : Str) : m DockerWriteResult :=
  match Docker.resolveBindMount mounts containerPath with
  | some bind => do
    let perms ← statContainerPerms transport vmid bind.lxcPath
    pushContainerFile transport vmid bind.lxcPath content (perms.getD newFileDefaults) tempDir
    pure ⟨true, some bind.lxcPath, none⟩
  | none => do
    let lxcTmp ← makeLxcTemp transport vmid tempDir
    tryFinally (copyIn transport vmid container containerPath content prevPerms tempDir lxcTmp)
      (removeLxcTemp transport vmid lxcTmp)

end HomelabMcp.Tools
