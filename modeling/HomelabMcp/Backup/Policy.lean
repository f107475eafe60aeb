import HomelabMcp.Lib.Json
import HomelabMcp.Lib.KeyedList
import HomelabMcp.Backup.Names

/-!
# What to store for a write, and how to undo it (policy.ts)

A backup is either self-contained or a delta: an envelope, as JSON text, with
the edit script that turns the lines of the new content into those of the old.
`applyReverseDiff` tells the two apart by looking at the stored bytes.
-/

namespace HomelabMcp.Backup

open SlashPath Text Integrity

/-- What the store uses of the platform. -/
structure Runtime where
  sha256 : Bytes → Bytes
  gzip : Bytes → Bytes
  gunzip : Bytes → Except Str Bytes
  gunzip_gzip : ∀ b, gunzip (gzip b) = .ok b
  /-- What the loop of `applyHunks` makes of hunks that are not of the declared
  type. -/
  looseHunks : Option Json → List Str → Except Str Bytes

/-- policy.ts:47. -/
def contentHash (rt : Runtime) (buf : Bytes) : Str :=
  hashHex (rt.sha256 buf)

/-- policy.ts:51. -/
def isTextContent (buf : Bytes) : Bool :=
  !(buf.take 8192).contains 0

def MAX_DIFF_LINES : Nat := 2000

/-! ## Edit scripts -/

inductive DiffHunk
  | keep (k : Nat)
  | delete (d : Nat)
  | insert (i : List Str)
  deriving DecidableEq

inductive RawEdit
  | keep
  | delete
  | insert (v : Str)
  deriving DecidableEq

/-- The rest of a row of the table: `left` is the cell before, the list starts
with the cell above that one. -/
def lcsCells (newLine : Str) : Nat → List Str → List Nat → List Nat
  | left, prevLine :: prevLines, diagonal :: above :: row =>
    let cell := if newLine = prevLine then diagonal + 1 else if above > left then above else left
    cell :: lcsCells newLine cell prevLines (above :: row)
  | _, _, _ => []

/-- The rows of the table for the lines that follow. -/
def lcsRows (prevLines : List Str) : List Nat → List Str → List (List Nat)
  | row, [] => [row]
  | row, newLine :: newLines =>
    row :: lcsRows prevLines (0 :: lcsCells newLine 0 prevLines row) newLines

/-- `dp[i][j]` (policy.ts:83). -/
def lcsTable (newLines prevLines : List Str) : Nat → Nat → Nat :=
  let rows := lcsRows prevLines (List.replicate (prevLines.length + 1) 0) newLines
  fun i j => (rows.getD i []).getD j 0

/-- The edits in the order they are pushed, from the end of both lists. -/
def backtrack (dp : Nat → Nat → Nat) (newLines prevLines : List Str) :
    Nat → Nat → Nat → List RawEdit
  | 0, _, _ => []
  | fuel + 1, i, j =>
    if i = 0 ∧ j = 0 then []
    else if i > 0 ∧ j > 0 ∧ newLines.getD (i - 1) [] = prevLines.getD (j - 1) [] then
      .keep :: backtrack dp newLines prevLines fuel (i - 1) (j - 1)
    else if j > 0 ∧ (i = 0 ∨ dp i (j - 1) ≥ dp (i - 1) j) then
      .insert (prevLines.getD (j - 1) []) :: backtrack dp newLines prevLines fuel i (j - 1)
    else .delete :: backtrack dp newLines prevLines fuel (i - 1) j

/-- Append an edit to the hunks, joining it to the last one of its kind. -/
def addEdit (hunks : List DiffHunk) (e : RawEdit) : List DiffHunk :=
  match e, hunks.getLast? with
  | .keep, some (.keep k) => hunks.dropLast ++ [.keep (k + 1)]
  | .keep, _ => hunks ++ [.keep 1]
  | .delete, some (.delete d) => hunks.dropLast ++ [.delete (d + 1)]
  | .delete, _ => hunks ++ [.delete 1]
  | .insert v, some (.insert i) => hunks.dropLast ++ [.insert (i ++ [v])]
  | .insert v, _ => hunks ++ [.insert [v]]

/-- policy.ts:77. -/
def buildHunks (newLines prevLines : List Str) : List DiffHunk :=
  let n := newLines.length
  let m := prevLines.length
  (backtrack (lcsTable newLines prevLines) newLines prevLines (n + m) n m).reverse.foldl addEdit []

/-- The loop over the hunks: the lines put out, and the position in `newLines`. -/
def runHunks (newLines : List Str) :
    List DiffHunk → List Str × Nat → Except Str (List Str × Nat)
  | [], s => .ok s
  | .keep k :: hunks, (out, ni) =>
    -- the first line past the end throws
    if k = 0 ∨ ni + k ≤ newLines.length then
      runHunks newLines hunks (out ++ (newLines.drop ni).take k, ni + k)
    else .error "Delta corrupt: keep hunk overruns source".toList
  | .delete d :: hunks, (out, ni) => runHunks newLines hunks (out, ni + d)
  | .insert i :: hunks, (out, ni) => runHunks newLines hunks (out ++ i, ni)

/-- `lines.join("\n")`. -/
def joinLines (lines : List Str) : Str :=
  [newline].intercalate lines

/-- policy.ts:133. -/
def applyHunks (hunks : List DiffHunk) (newLines : List Str) : Except Str Bytes :=
  (runHunks newLines hunks ([], 0)).map fun s => Utf8.encode (joinLines s.1)

/-! ## Envelopes -/

def DiffHunk.json : DiffHunk → Json
  | .keep k => .obj [("k".toList, .nat k)]
  | .delete d => .obj [("d".toList, .nat d)]
  | .insert i => .obj [("i".toList, .arr (i.map .str))]

/-- A number literal that is a natural number. -/
def naturalLiteral : Json → Option Nat
  | .num literal =>
    if literal.all Char.isDigit then some (Nat.ofDigitChars 10 literal 0) else none
  | _ => none

def stringValue : Json → Option Str
  | .str s => some s
  | _ => none

/-- A hunk of the declared type. -/
def readHunk (v : Json) : Option DiffHunk :=
  match v.get? "k".toList with
  | some k => (naturalLiteral k).map .keep
  | none =>
    match v.get? "d".toList with
    | some d => (naturalLiteral d).map .delete
    | none =>
      match v.get? "i".toList with
      | some (.arr i) => (i.mapM stringValue).map .insert
      | _ => none

def readHunks : Json → Option (List DiffHunk)
  | .arr hunks => hunks.mapM readHunk
  | _ => none

def FORMAT : Str := "mcp-rdiff-v1".toList

/-- `JSON.stringify(envelope)`. -/
def envelopeJson (baseHash : Str) (hunks : List DiffHunk) : Json :=
  .obj [("format".toList, .str FORMAT), ("baseHash".toList, .str baseHash),
    ("hunks".toList, .arr (hunks.map DiffHunk.json))]

/-- The decompressed bytes are taken for an envelope (policy.ts:176). -/
def readEnvelope (decompressed : Bytes) : Option Json :=
  (Json.parse (Utf8.decode decompressed)).filter fun v =>
    match v.get? "format".toList with
    | some (.str s) => s == FORMAT
    | _ => false

/-- policy.ts:160. The second component is the hash the live file must have;
`none` marks the raw fallback. -/
def computeReverseDiff (rt : Runtime) (newContent prevContent : Bytes) : Bytes × Option Str :=
  let newLines := lines (Utf8.decode newContent)
  let prevLines := lines (Utf8.decode prevContent)
  if newLines.length > MAX_DIFF_LINES ∨ prevLines.length > MAX_DIFF_LINES then (prevContent, none)
  else
    let baseHash := contentHash rt newContent
    (Utf8.encode (envelopeJson baseHash (buildHunks newLines prevLines)).stringify, some baseHash)

def needsFileMessage : Str :=
  ("This backup is in delta format and requires the current remote file for restore. " ++
    "Ensure the target file exists on the host.").toList

def staleBaseMessage (baseHash currentHash : Str) : Str :=
  "Cannot apply delta backup: the live file no longer matches this delta's base (base ".toList ++
    baseHash.take 8 ++ "…, current ".toList ++ currentHash.take 8 ++
    ("…) — it changed since this backup was taken (an earlier revert, or an out-of-band edit). " ++
      "Revert the NEWEST backup for this file instead — call revert_file with just \x60path\x60 " ++
      "(it auto-resolves the latest, which is self-contained after a revert) — or restore " ++
      "manually.").toList

/-- policy.ts:172. -/
def applyReverseDiff (rt : Runtime) (diffBlob : Bytes) (currentContent : Option Bytes) :
    Except Str Bytes := do
  let decompressed ← rt.gunzip diffBlob
  match readEnvelope decompressed with
  | none => .ok decompressed
  | some envelope =>
    match currentContent with
    | none => .error needsFileMessage
    | some current =>
      match envelope.get? "baseHash".toList with
      | some (.str baseHash) =>
        if contentHash rt current ≠ baseHash then
          .error (staleBaseMessage baseHash (contentHash rt current))
        else
          match (envelope.get? "hunks".toList).bind readHunks with
          | some hunks => applyHunks hunks (lines (Utf8.decode current))
          | none => rt.looseHunks (envelope.get? "hunks".toList) (lines (Utf8.decode current))
      -- the hash differs, and the message cannot be made of it
      | _ => .error "Cannot read properties of undefined (reading 'slice')".toList

/-! ## Which kind of backup -/

inductive LargeFilePolicy
  | diff
  | metadataOnly
  deriving DecidableEq, Repr

/-- policy.ts:8. -/
inductive BackupKind
  | dedup (existingPath : BackupPath)
  | gzipDiff (blob : Bytes) (requiresBaseHash : Option Str)
  | gzipFull (blob : Bytes) (reanchored : Bool)
  | metadataOnly
  deriving DecidableEq

structure BackupPolicyInput where
  newContent : Bytes
  prevContent : Option Bytes
  prevHash : Option Str
  isText : Bool
  largeFileBytesThreshold : Nat
  largeFilePolicy : LargeFilePolicy
  existingHashToPaths : List (Str × BackupPath)
  chainBaseHash : Option Str

/-- policy.ts:214. -/
def driftedSinceLastWrite (prevHash chainBaseHash : Option Str) : Bool :=
  match chainBaseHash, prevHash with
  | some base, some prev => prev != base
  | _, _ => false

/-- The two branches that have a previous content: a re-anchor or a delta. -/
def diffAgainst (rt : Runtime) (newContent prevContent : Bytes) (drifted : Bool) : BackupKind :=
  if drifted then .gzipFull (rt.gzip prevContent) true
  else
    let (buf, baseHash) := computeReverseDiff rt newContent prevContent
    .gzipDiff (rt.gzip buf) baseHash

/-- policy.ts:218. -/
def selectBackupKind (rt : Runtime) (input : BackupPolicyInput) : BackupKind :=
  let newHash := contentHash rt input.newContent
  match KeyedList.lookup Prod.fst newHash input.existingHashToPaths with
  | some (_, existingPath) => .dedup existingPath
  | none =>
    let drifted := driftedSinceLastWrite input.prevHash input.chainBaseHash
    if input.newContent.length > input.largeFileBytesThreshold then
      if input.largeFilePolicy = .metadataOnly ∨ !input.isText then .metadataOnly
      else
        match input.prevContent with
        | some prev => diffAgainst rt input.newContent prev drifted
        | none => .gzipFull (rt.gzip input.newContent) false
    else
      match input.isText, input.prevContent, input.prevHash with
      | true, some prev, some _ => diffAgainst rt input.newContent prev drifted
      | _, _, _ => .gzipFull (rt.gzip input.newContent) false

/-- What `selectBackupKind` may answer. -/
theorem selectBackupKind_cases (rt : Runtime) (input : BackupPolicyInput) :
    (∃ p, (contentHash rt input.newContent, p) ∈ input.existingHashToPaths ∧
      selectBackupKind rt input = .dedup p) ∨
    (KeyedList.lookup Prod.fst (contentHash rt input.newContent) input.existingHashToPaths = none ∧
      (selectBackupKind rt input = .metadataOnly ∨
        selectBackupKind rt input = .gzipFull (rt.gzip input.newContent) false ∨
        ∃ prev, input.prevContent = some prev ∧ selectBackupKind rt input =
          diffAgainst rt input.newContent prev
            (driftedSinceLastWrite input.prevHash input.chainBaseHash))) := by
  unfold selectBackupKind
  cases hlookup : KeyedList.lookup Prod.fst (contentHash rt input.newContent)
      input.existingHashToPaths with
  | some e =>
    have hkey : e.1 = _ := KeyedList.key_of_lookup hlookup
    refine Or.inl ⟨e.2, hkey ▸ KeyedList.mem_of_lookup hlookup, ?_⟩
    simp only [hlookup]
  | none =>
    refine Or.inr ⟨rfl, ?_⟩
    simp only [hlookup]
    by_cases hlarge : input.newContent.length > input.largeFileBytesThreshold
    · simp only [if_pos hlarge]
      by_cases hbare : input.largeFilePolicy = .metadataOnly ∨ !input.isText
      · exact Or.inl (if_pos hbare)
      · simp only [if_neg hbare]
        cases hprev : input.prevContent with
        | none => exact Or.inr (Or.inl rfl)
        | some prev => exact Or.inr (Or.inr ⟨prev, rfl, rfl⟩)
    · simp only [if_neg hlarge]
      cases htext : input.isText with
      | false => exact Or.inr (Or.inl rfl)
      | true =>
        cases hprev : input.prevContent with
        | none => exact Or.inr (Or.inl rfl)
        | some prev =>
          cases hhash : input.prevHash with
          | none => exact Or.inr (Or.inl rfl)
          | some hash => exact Or.inr (Or.inr ⟨prev, rfl, rfl⟩)

/-- A difference is stored as a re-anchor or as a delta. -/
theorem diffAgainst_cases (rt : Runtime) (newContent prevContent : Bytes) (drifted : Bool) :
    (drifted = true ∧
      diffAgainst rt newContent prevContent drifted = .gzipFull (rt.gzip prevContent) true) ∨
    (drifted = false ∧ diffAgainst rt newContent prevContent drifted =
      .gzipDiff (rt.gzip (computeReverseDiff rt newContent prevContent).1)
        (computeReverseDiff rt newContent prevContent).2) := by
  cases drifted with
  | true => exact Or.inl ⟨rfl, rfl⟩
  | false => exact Or.inr ⟨rfl, rfl⟩

/-! ## Revertibility -/

/-- The `kind` a version is listed with. -/
inductive StoredKind
  | gzipFull
  | gzipDiff
  | metadataOnly
  deriving DecidableEq, Repr

def StoredKind.text : StoredKind → Str
  | .gzipFull => "gzip-full".toList
  | .gzipDiff => "gzip-diff".toList
  | .metadataOnly => "metadata-only".toList

/-- policy.ts:276. A field that is absent is `none`, and one that is null is
`some none`. -/
structure RevertibilityView where
  kind : StoredKind
  requiresBaseHash : Option (Option Str)
  hash : Option Str

structure Revertibility where
  revertible : Bool
  reason : Option Str
  deriving DecidableEq

/-- policy.ts:305. -/
def classifyRevertibility (view : RevertibilityView) (currentHash : Option Str) : Revertibility :=
  if view.kind = .metadataOnly then
    ⟨false, some "metadata-only backup — no content stored, nothing to revert".toList⟩
  else
    let baseReq : Option Str :=
      match view.requiresBaseHash with
      | some required => required
      | none => if view.kind = .gzipDiff then view.hash else none
    match baseReq, currentHash with
    | none, _ => ⟨true, none⟩
    | some _, none =>
      ⟨false, some ("current file is unreadable or missing, so this delta backup cannot be " ++
        "verified for revert").toList⟩
    | some base, some current =>
      if current = base then ⟨true, none⟩
      else
        ⟨false, some ("delta backup needs the current file to match base ".toList ++
          base.take 8 ++ "…, but it is ".toList ++ current.take 8 ++
          ("… — the file was edited out-of-band since this backup, so this version can no " ++
            "longer be applied (revert a more recent version, or restore manually)").toList)⟩

end HomelabMcp.Backup
