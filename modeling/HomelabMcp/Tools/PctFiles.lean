import HomelabMcp.Integrity.Transport

/-!
# Files of containers (pctFiles.ts)

A file of a container is read through a temporary file of the node. The transport is a
parameter: what runs a command, reads a file and writes one, in any monad with errors.
-/

namespace HomelabMcp.Tools

open SlashPath Text Integrity

variable {m : Type → Type} [Monad m] [MonadExceptOf Str m]

/-- transport.ts:34. -/
structure SshTransport (m : Type → Type) where
  exec : Str → m ExecResult
  readFile : Str → m Bytes
  writeFile : Str → Bytes → m Unit

/-- pctFiles.ts:13, dockerHelpers.ts:414. -/
structure GuestPerms where
  mode : Str
  uid : Nat
  gid : Nat
  deriving DecidableEq

/-! ## Commands and parsers -/

def buildMkTempCommand (tempDir : Str) : Str :=
  "mktemp -p ".toList ++ shQuote tempDir

def buildRmCommand (tmpPath : Str) : Str :=
  "rm -f ".toList ++ shQuote tmpPath

/-- pctFiles.ts:50. -/
def buildPctPullCommand (vmid : Nat) (remotePath tmpPath : Str) : Str :=
  "pct pull ".toList ++ numeral vmid ++ ' ' :: shQuote remotePath ++ ' ' :: shQuote tmpPath

/-- pctFiles.ts:66. -/
def buildStatCommand (vmid : Nat) (remotePath : Str) : Str :=
  "pct exec ".toList ++ numeral vmid ++ " -- stat -c '%a %u %g' ".toList ++ shQuote remotePath

/-- pctFiles.ts:76. -/
def buildFileExistsCommand (vmid : Nat) (remotePath : Str) : Str :=
  "pct exec ".toList ++ numeral vmid ++ " -- test -e ".toList ++ shQuote remotePath

/-- `(\d+)\s+`: a numeral, with the white space after it, and what comes then. -/
def readField (s : Str) : Option (Str × Str) :=
  let digits := s.takeWhile Char.isDigit
  let rest := s.dropWhile Char.isDigit
  if digits = [] ∨ ¬(rest.head?.map isSpace).getD false then none
  else some (digits, rest.dropWhile isSpace)

/-- pctFiles.ts:84. -/
def parseStatPerms (output : Str) : Option GuestPerms := do
  let (mode, rest) ← readField (trim output)
  let (uid, gid) ← readField rest
  if gid ≠ [] ∧ gid.all Char.isDigit then some ⟨mode, parseInt uid, parseInt gid⟩ else none

inductive PullError
  | notFound
  | other
  deriving DecidableEq

/-- pctFiles.ts:95. -/
def classifyPullError (stderr : Str) : PullError :=
  let text := toLowerCase stderr
  if includes text "no such file".toList ∨ includes text "does not exist".toList ∨
      includes text "not found".toList ∨ includes text "cannot stat".toList then .notFound
  else .other

/-! ## Reading -/

/-- pctFiles.ts:127. -/
def createNodeTemp (transport : SshTransport m) (tempDir : Str) : m Str := do
  let res ← transport.exec (buildMkTempCommand tempDir)
  if res.exitCode ≠ some 0 then
    throw ("mktemp failed on node (exit ".toList ++
      (res.exitCode.map signedNumeral).getD "null".toList ++ "): ".toList ++ trim res.stderr)
  else if trim res.stdout = [] then throw "mktemp returned an empty path".toList
  else pure (trim res.stdout)

/-- pctFiles.ts:141. -/
def removeNodeTemp (transport : SshTransport m) (tmpPath : Str) : m Unit :=
  tryCatch (do
    let _ ← transport.exec (buildRmCommand tmpPath)
    pure ()) fun _ => pure ()

/-- pctFiles.ts:159. -/
def containerFileExists (transport : SshTransport m) (vmid : Nat) (remotePath : Str) :
    m Bool := do
  let res ← transport.exec (buildFileExistsCommand vmid remotePath)
  pure (decide (res.exitCode = some 0))

def pullToTemp (transport : SshTransport m) (vmid : Nat) (remotePath tmp : Str) :
    m (Option Bytes) := do
  let res ← transport.exec (buildPctPullCommand vmid remotePath tmp)
  if res.exitCode ≠ some 0 then
    if classifyPullError res.stderr = .notFound then pure none
    else
      throw ("pct pull failed for ".toList ++ numeral vmid ++ ':' :: remotePath ++
        " (exit ".toList ++ (res.exitCode.map signedNumeral).getD "null".toList ++
        "): ".toList ++ trim res.stderr)
  else
    let content ← transport.readFile tmp
    pure (some content)

/-- pctFiles.ts:184; the temporary file is removed whatever happens. -/
def pullContainerFile (transport : SshTransport m) (vmid : Nat) (remotePath tempDir : Str) :
    m (Option Bytes) := do
  if ← containerFileExists transport vmid remotePath then
    let tmp ← createNodeTemp transport tempDir
    let outcome ← tryCatch (do
      let content ← pullToTemp transport vmid remotePath tmp
      pure (Except.ok content)) fun e => pure (.error e)
    removeNodeTemp transport tmp
    match outcome with
    | .ok content => pure content
    | .error e => throw e
  else pure none

end HomelabMcp.Tools
