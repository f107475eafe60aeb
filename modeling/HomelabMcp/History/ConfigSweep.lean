import HomelabMcp.Integrity.Forest
import HomelabMcp.History.ConfigHistory
import HomelabMcp.History.SweepPlanner

/-!
# Sweeps (tools/configSweep.ts)

A sweep of one target enumerates the watched files of the node, hashes the candidates in
batches, fetches into the mirror what differs, and removes what is no longer enumerated.
-/

namespace HomelabMcp.History

open SlashPath Text Integrity Backup KeyedList FilePath Effect Tools

/-- What a sweep reads of the configuration (config.ts:241). -/
structure HistoryConfig where
  hostWatchPaths : List Str
  containerWatchPaths : List Str
  excludePatterns : List Str
  sweepFileSizeCapBytes : Int
  sweepHashBatchSize : Int
  nodeTempDir : Str

/-- configSweep.ts:53; what `added` and the others are counted up to. -/
structure SweepCounts where
  added : Nat
  changed : Nat
  deleted : Nat
  unchanged : Nat
  excluded : Nat
  skippedOversize : Nat
  deriving DecidableEq

def SweepCounts.zero : SweepCounts := ⟨0, 0, 0, 0, 0, 0⟩

inductive SweepOutcome
  | done
  | skipped (note : Str)
  | error (message : Str)
  deriving DecidableEq

structure SweepTargetResult where
  target : Str
  counts : SweepCounts
  outcome : SweepOutcome
  deriving DecidableEq

/-- `res.stderr.trim() || "exit " + res.exitCode`. -/
def failureText (res : ExecResult) : Str :=
  if trim res.stderr = [] then exitText res.exitCode else trim res.stderr

def watchPathsFor (cfg : HistoryConfig) : SweepTarget → List Str
  | .host => cfg.hostWatchPaths
  | .guest _ => cfg.containerWatchPaths

/-! ## The permissions manifest -/

/-- history/manifest.ts:40. -/
def buildStatBatchCommand (paths : List Str) (vmid : Option Nat) : Option Str :=
  if paths = [] then none
  else some (onTarget vmid ("stat -c '%a %u %g %n' -- ".toList ++ joinWith ' ' (paths.map shQuote)))

/-- `\s+(.+)$` from a character that is not white space on, or from the last one. -/
def readRest (s : Str) : Option Str :=
  let blanks := s.takeWhile isSpace
  let body := s.dropWhile isSpace
  let path := if body ≠ [] then body else if 2 ≤ blanks.length then blanks.drop (blanks.length - 1) else []
  if path = [] ∨ path.any isLineTerminator then none else some path

def parseStatLine (raw : Str) : Option (Str × FileMeta) := do
  let (mode, rest) ← readField (stripReturn raw)
  let (uid, rest) ← readField rest
  let gid := rest.takeWhile Char.isDigit
  let path ← readRest (rest.dropWhile Char.isDigit)
  if gid = [] ∨ ¬((rest.dropWhile Char.isDigit).head?.map isSpace).getD false then none
  else some (path, ⟨mode, parseInt uid, parseInt gid⟩)

/-- history/manifest.ts:55. -/
def parseStatBatch (output : Str) : List (Str × FileMeta) :=
  upsertAll Prod.fst ((lines output).filterMap parseStatLine) []

/-- configSweep.ts:264. -/
def applyOversizeSkips (manifest : Manifest) (skipped : List EnumeratedFile) : Manifest :=
  { manifest with
    skipped := upsertAll Prod.fst
      (skipped.map fun s =>
        (s.path, "oversize (".toList ++ signedNumeral s.sizeBytes ++ " bytes)".toList))
      manifest.skipped }

/-! ## The sweep -/

section
variable (h : ConfigHistory) (transport : SshTransport Action) (cfg : HistoryConfig)
  (target : SweepTarget)

/-- The hashes of the batches, or why hashing stopped. -/
def hashBatches : List (List Str) → List (Str × Str) → Action (Except Str (List (Str × Str)))
  | [], hashes => pure (.ok hashes)
  | batch :: batches, hashes =>
    match buildSha256Command batch target.vmid with
    | none => hashBatches batches hashes
    | some command => do
      let res ← transport.exec command
      if res.exitCode ≠ some 0 ∧ trim res.stdout = [] then
        pure (.error ("hash failed: ".toList ++ failureText res))
      else hashBatches batches (upsertAll Prod.fst (parseSha256Sum res.stdout) hashes)

/-- `"/" + rel.slice(prefix.length + 1)`. -/
def absOf (rel : Str) : Str :=
  '/' :: rel.drop ((repoPrefixForSweepTarget target).length + 1)

/-- The hashes of the mirror's files, under the paths they have on the node. -/
def hashMirror (repo : Repo) : List Str → Except Str (List (Str × Str))
  | [] => pure []
  | rel :: rels => do
    let hash ← h.hashMirrorFile repo rel
    let hashes ← hashMirror repo rels
    pure ((hash.map fun value => (absOf target rel, value)).toList ++ hashes)

def fetchContent (abs : Str) : Action (Option Bytes) :=
  match target.vmid with
  | none =>
    tryCatch (do
      let content ← transport.readFile abs
      pure (some content)) fun _ => pure none
  | some vmid => pullContainerFile transport vmid abs cfg.nodeTempDir

/-- Fetch into the mirror; how many files were added, and how many changed. -/
def fetchAll (mirrorHashes : List (Str × Str)) : List Str → Nat × Nat → Action (Nat × Nat)
  | [], counts => pure counts
  | abs :: rest, counts => do
    match ← fetchContent transport cfg target abs with
    | none => fetchAll mirrorHashes rest counts
    | some content =>
      let rel ← orThrow (mirrorRelPathForSweepFile target abs)
      h.writeMirrorContent rel content
      fetchAll mirrorHashes rest
        (if (valueOf mirrorHashes abs).isSome then (counts.1, counts.2 + 1)
          else (counts.1 + 1, counts.2))

def removeAll : List Str → Action Unit
  | [] => pure ()
  | abs :: rest => do
    let rel ← orThrow (mirrorRelPathForSweepFile target abs)
    h.removeMirrorContent rel
    removeAll rest

def statBatches : List (List Str) → Manifest → Action Manifest
  | [], manifest => pure manifest
  | batch :: batches, manifest =>
    match buildStatBatchCommand batch target.vmid with
    | none => statBatches batches manifest
    | some command => do
      let res ← transport.exec command
      statBatches batches
        (if res.exitCode = some 0 ∨ trim res.stdout ≠ [] then
          { manifest with files := upsertAll Prod.fst (parseStatBatch res.stdout) manifest.files }
        else manifest)

def refreshManifest (toFetch toDelete : List Str) (skippedOversize : List EnumeratedFile) :
    Action Unit := do
  let manifest ← readManifest (manifestKeyForSweepTarget target)
  let manifest ← statBatches transport target (chunk toFetch cfg.sweepHashBatchSize) manifest
  writeManifest (manifestKeyForSweepTarget target)
    (applyOversizeSkips
      { manifest with files := manifest.files.filter fun f => decide (f.1 ∉ toDelete) }
      skippedOversize)

/-- The hashes of the mirror, and what has to be done to it. -/
def mirrorDiff (repo : Repo) (enumerated : List EnumeratedFile) (candidates : List Str)
    (remoteHashes : List (Str × Str)) : Except Str (List (Str × Str) × DiffResult) := do
  let mirrorRel ← h.listMirrorFiles repo (repoPrefixForSweepTarget target)
  let mirrorHashes ← hashMirror h target repo mirrorRel
  pure (mirrorHashes, diffAgainstMirror candidates remoteHashes mirrorHashes
    (mirrorRel.map (absOf target)) (enumerated.map EnumeratedFile.path))

/-- Fetch, remove, and keep the manifest up to date. -/
def applyDiff (classified : ClassifyResult) (mirrorHashes : List (Str × Str))
    (diff : DiffResult) : Action SweepCounts := do
  let fetched ← fetchAll h transport cfg target mirrorHashes diff.toFetch (0, 0)
  removeAll h target diff.toDelete
  refreshManifest transport cfg target diff.toFetch diff.toDelete classified.skippedOversize
  pure
    { added := fetched.1
      changed := fetched.2
      deleted := diff.toDelete.length
      unchanged := diff.unchanged.length
      excluded := classified.excluded.length
      skippedOversize := classified.skippedOversize.length }

/-- What follows the hashing. -/
def updateMirror (enumerated : List EnumeratedFile) (classified : ClassifyResult)
    (remoteHashes : List (Str × Str)) : Action SweepCounts := do
  let repo ← getRepo
  let (mirrorHashes, diff) ←
    orThrow (mirrorDiff h target repo enumerated classified.candidates remoteHashes)
  applyDiff h transport cfg target classified mirrorHashes diff

/-- The part of a sweep that comes after the status check. -/
def sweepRunning : Action SweepTargetResult := do
  let enumRes ← transport.exec (buildFindEnumCommand (watchPathsFor cfg target) target.vmid)
  if enumRes.exitCode ≠ some 0 then
    pure ⟨target.label, .zero, .error ("enumerate failed: ".toList ++ failureText enumRes)⟩
  else
    let enumerated := parseFindEnumeration enumRes.stdout
    let classified := classifyEnumeration enumerated cfg.excludePatterns cfg.sweepFileSizeCapBytes
    match ← hashBatches transport target (chunk classified.candidates cfg.sweepHashBatchSize) [] with
    | .error message => pure ⟨target.label, .zero, .error message⟩
    | .ok remoteHashes =>
      let counts ← updateMirror h transport cfg target enumerated classified remoteHashes
      pure ⟨target.label, counts, .done⟩

/-- configSweep.ts:129. -/
def sweepOneTarget : Action SweepTargetResult := do
  match target.vmid with
  | none => sweepRunning h transport cfg target
  | some vmid =>
    let st ← transport.exec (buildPctStatusCommand vmid)
    if st.exitCode ≠ some 0 ∨ parsePctStatus st.stdout ≠ "running".toList then
      pure ⟨target.label, .zero, .skipped "container not running".toList⟩
    else sweepRunning h transport cfg target

/-- One round of the handler's loop (configSweep.ts:290): what a target throws is its
result. -/
def sweepIsolated : Action SweepTargetResult :=
  tryCatch (sweepOneTarget h transport cfg target) fun e =>
    pure ⟨target.label, .zero, .error e⟩

end

end HomelabMcp.History
