import HomelabMcp.Tools.PctFiles
import HomelabMcp.Lib.FileTree
import HomelabMcp.Lib.Effect
import HomelabMcp.History.Paths

/-!
# The mirror repository (history/configHistory.ts)

What a sweep and a mutation do to the working tree of the repository. The node answers
each request in view of the requests before it. Git is a parameter: whether its commit
went through. A manifest is kept as the data in it, not as its JSON text.
-/

namespace HomelabMcp.History

open SlashPath Text Integrity Backup KeyedList FilePath Effect Tools

/-- history/manifest.ts:17. -/
structure FileMeta where
  mode : Str
  uid : Nat
  gid : Nat
  deriving DecidableEq

/-- history/manifest.ts:25. -/
structure Manifest where
  files : List (Str × FileMeta)
  skipped : List (Str × Str)

def emptyManifest : Manifest := ⟨[], []⟩

/-- The working tree of the repository, seen from its directory. -/
structure Repo where
  tree : FileTree FileName Bytes
  manifests : List (Str × Manifest)

inductive Request
  | exec (command : Str)
  | readFile (path : Str)
  | writeFile (path : Str) (content : Bytes)

/-- The node answers a request in view of those made before. -/
structure Node where
  exec : List Request → Str → Except Str ExecResult
  readFile : List Request → Str → Except Str Bytes
  writeFile : List Request → Str → Bytes → Except Str Unit

/-- One run: the requests made so far, and the repository. -/
structure Session where
  asked : List Request
  repo : Repo

abbrev Action := EStateM Str Session

def answer {α : Type} (request : Request) (reply : List Request → Except Str α) : Action α :=
  fun s =>
    match reply s.asked with
    | .ok a => .ok a { s with asked := s.asked ++ [request] }
    | .error e => .error e { s with asked := s.asked ++ [request] }

def Node.transport (node : Node) : SshTransport Action where
  exec command := answer (.exec command) fun asked => node.exec asked command
  readFile path := answer (.readFile path) fun asked => node.readFile asked path
  writeFile path content :=
    answer (.writeFile path content) fun asked => node.writeFile asked path content

def orThrow {α : Type} : Except Str α → Action α
  | .ok a => pure a
  | .error e => throw e

def getRepo : Action Repo := do
  let s ← get
  pure s.repo

def setTree (tree : FileTree FileName Bytes) : Action Unit :=
  modify fun s => { s with repo := { s.repo with tree := tree } }

/-- history/configHistory.ts:29. -/
structure ConfigHistory where
  enabled : Bool
  repoDir : FilePath
  sha256 : Bytes → Bytes

namespace ConfigHistory

variable (h : ConfigHistory)

/-- What the file system says of a write that fails. -/
def writeErrorText (place : FilePath) : WriteError FileName → Str
  | .isDirectory =>
    "EISDIR: illegal operation on a directory, open ".toList ++ shQuote (remoteText (h.repoDir ++ place))
  | .blocked above =>
    (if above = place.dropLast then "EEXIST: file already exists".toList
      else "ENOTDIR: not a directory".toList) ++
      ", mkdir ".toList ++ shQuote (remoteText (h.repoDir ++ place.dropLast))

/-- history/configHistory.ts:168. -/
def writeMirrorContent (repoRelPath : Str) (content : Bytes) : Action Unit := do
  let place ← orThrow (mirrorAbsPath h.repoDir repoRelPath)
  let repo ← getRepo
  match repo.tree.write place content with
  | .ok tree => setTree tree
  | .error e => throw (h.writeErrorText place e)

def removeErrorText (place : FilePath) : Str :=
  "Path is a directory: rm returned EISDIR (is a directory) ".toList ++
    remoteText (h.repoDir ++ place)

/-- history/configHistory.ts:174. -/
def removeMirrorContent (repoRelPath : Str) : Action Unit := do
  let place ← orThrow (mirrorAbsPath h.repoDir repoRelPath)
  let repo ← getRepo
  if place ∈ repo.tree.dirs then throw (h.removeErrorText place)
  else setTree (repo.tree.remove place)

/-- history/configHistory.ts:180. -/
def hashMirrorFile (repo : Repo) (repoRelPath : Str) : Except Str (Option Str) := do
  let place ← mirrorAbsPath h.repoDir repoRelPath
  if place ∈ repo.tree.dirs then throw "EISDIR: illegal operation on a directory, read".toList
  else pure ((repo.tree.read place).map fun content => hashHex (h.sha256 content))

def gitDirName : Str := ".git".toList

/-- history/configHistory.ts:187. -/
def listMirrorFiles (repo : Repo) (repoRelPrefix : Str) : Except Str (List Str) := do
  let root ← mirrorAbsPath h.repoDir repoRelPrefix
  if (repo.tree.read root).isSome then
    throw ("ENOTDIR: not a directory, scandir ".toList ++ shQuote (remoteText (h.repoDir ++ root)))
  else
    pure ((repo.tree.listBelow (fun n => decide (n.val = gitDirName)) root).map FilePath.text)

end ConfigHistory

/-- history/configHistory.ts:206; for a key that names a file. -/
def readManifest (manifestKey : Str) : Action Manifest := do
  let repo ← getRepo
  pure (((lookup Prod.fst manifestKey repo.manifests).map Prod.snd).getD emptyManifest)

/-- history/configHistory.ts:212. -/
def writeManifest (manifestKey : Str) (manifest : Manifest) : Action Unit :=
  modify fun s =>
    { s with
      repo := { s.repo with
        manifests := upsert Prod.fst (manifestKey, manifest) s.repo.manifests } }

/-- history/configHistory.ts:136. -/
def statPerms (transport : SshTransport Action) (target : BackupTarget) :
    Action (Option GuestPerms) :=
  tryCatch (do
    let res ← transport.exec (
      if target.kind = .pct then buildStatCommand (target.vmid.getD 0) target.remotePath
      else "stat -c '%a %u %g' ".toList ++ shQuote target.remotePath)
    pure (if res.exitCode ≠ some 0 then none else parseStatPerms res.stdout)) fun _ => pure none

/-- What `recordMutation` tries. -/
def mutationStep (h : ConfigHistory) (transport : SshTransport Action) (committed : Bool)
    (target : BackupTarget) (content : Bytes) : Action Bool := do
  let mapping ← orThrow (mirrorMappingForTarget target)
  h.writeMirrorContent mapping.repoRelPath content
  match ← statPerms transport target with
  | some perms =>
    let manifest ← readManifest mapping.manifestKey
    writeManifest mapping.manifestKey
      { manifest with
        files := upsert Prod.fst (mapping.fileKey, ⟨perms.mode, perms.uid, perms.gid⟩)
          manifest.files }
  | none => pure ()
  pure committed

/-- history/configHistory.ts:105; `committed` is what git answers. -/
def recordMutation (h : ConfigHistory) (transport : SshTransport Action) (committed : Bool)
    (target : BackupTarget) (content : Bytes) : Action Bool :=
  if ¬h.enabled ∨ ¬isHistoryTarget target then pure false
  else tryCatch (mutationStep h transport committed target content) fun _ => pure false

end HomelabMcp.History
