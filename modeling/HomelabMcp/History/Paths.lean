import HomelabMcp.Backup.Names
import HomelabMcp.Lib.FilePath
import HomelabMcp.Lib.Json

/-!
# Where a remote file is in the mirror (history/paths.ts)

The mirror is one directory tree, with a directory `host` for the files of the node and
`pct/<vmid>` for those of a container. A name in it is a string relative to the
repository; `mirrorAbsPath` resolves it.

- `mirrorRelPathForSweepFile_text`, `mirrorAbsPath_text`: a path that is written as its
  names goes to its place below the directory of its target.
-/

namespace HomelabMcp.History

open SlashPath Text Backup FilePath

/-- history/paths.ts:26. -/
structure MirrorMapping where
  repoRelPath : Str
  manifestKey : Str
  fileKey : Str
  deriving DecidableEq

/-- history/paths.ts:38; the reason, when it throws. -/
def assertSafeAbsolute (p : Str) : Except Str Unit :=
  if p.head? ≠ some '/' then
    .error ("history mirror path must be absolute: ".toList ++ Json.quote p)
  else if nulChar ∈ p then .error "history mirror path contains a null byte".toList
  else if up ∈ segments p then
    .error ("history mirror path traversal rejected (..): ".toList ++ Json.quote p)
  else .ok ()

/-- `absPath.replace(/^\/+/, "")`. -/
def stripLeadingSlash (absPath : Str) : Str :=
  absPath.dropWhile fun c => c = '/'

/-- history/paths.ts:57. -/
def mirrorMappingForTarget (target : BackupTarget) : Except Str MirrorMapping := do
  match target.kind with
  | .qm => throw "qm targets are not mirrored by the config-history layer".toList
  | .docker => throw "docker targets are not mirrored by the config-history layer".toList
  | .pct =>
    assertSafeAbsolute target.remotePath
    match target.vmid with
    | none => throw "container target is missing its vmid; cannot map a mirror path".toList
    | some vmid =>
      pure
        { repoRelPath := "pct/".toList ++ numeral vmid ++ '/' :: stripLeadingSlash target.remotePath
          manifestKey := "pct-".toList ++ numeral vmid
          fileKey := target.remotePath }
  | .host =>
    assertSafeAbsolute target.remotePath
    pure
      { repoRelPath := "host/".toList ++ stripLeadingSlash target.remotePath
        manifestKey := "host".toList
        fileKey := target.remotePath }

/-- history/paths.ts:85. -/
def isHistoryTarget (target : BackupTarget) : Bool :=
  target.kind = .host ∨ target.kind = .pct

/-! ## Sweeps -/

inductive SweepTarget
  | host
  | guest (vmid : Nat)
  deriving DecidableEq, Repr

def SweepTarget.vmid : SweepTarget → Option Nat
  | .host => none
  | .guest vmid => some vmid

/-- configSweep.ts:111. -/
def SweepTarget.label : SweepTarget → Str
  | .host => "host".toList
  | .guest vmid => "pct:".toList ++ numeral vmid

/-- history/paths.ts:90. -/
def manifestKeyForSweepTarget : SweepTarget → Str
  | .host => "host".toList
  | .guest vmid => "pct-".toList ++ numeral vmid

/-- history/paths.ts:95. -/
def repoPrefixForSweepTarget : SweepTarget → Str
  | .host => "host".toList
  | .guest vmid => "pct/".toList ++ numeral vmid

/-- history/paths.ts:103. -/
def mirrorRelPathForSweepFile (target : SweepTarget) (absPath : Str) : Except Str Str := do
  assertSafeAbsolute absPath
  pure (repoPrefixForSweepTarget target ++ '/' :: stripLeadingSlash absPath)

/-! ## Places in the repository -/

/-- `mirrorAbsPath` (configHistory.ts:158), seen from the repository's directory
`repoDir`. A string with a null byte is refused at the call that takes it for a path. -/
def mirrorAbsPath (repoDir : FilePath) (repoRelPath : Str) : Except Str FilePath :=
  let abs := resolve repoDir repoRelPath
  if ¬repoDir <+: abs then
    .error ("mirror path escapes the repo root: ".toList ++ repoRelPath)
  else if nulChar ∈ repoRelPath then
    .error "The argument 'path' must be a string, Uint8Array, or URL without null bytes.".toList
  else .ok (abs.drop repoDir.length)

theorem isName_numeral (n : Nat) : IsName (numeral n) := by
  have hdigit : ∀ c ∈ numeral n, c.isDigit := fun c hc => isDigit_of_mem_numeral hc
  obtain ⟨c, l, hcl, hc⟩ := Json.numeral_head n
  refine ⟨?_, slash_notMem_numeral n, nul_notMem_numeral n, ?_, ?_⟩
  · rw [hcl]
    exact List.cons_ne_nil c l
  · intro heq
    exact absurd (hdigit '.' (heq ▸ List.mem_singleton_self _)) (by decide)
  · intro heq
    exact absurd (hdigit '.' (heq ▸ List.mem_cons_self)) (by decide)

def hostName : FileName :=
  ⟨"host".toList, by decide⟩

def pctName : FileName :=
  ⟨"pct".toList, by decide⟩

/-- The directory of a target in the repository. -/
def SweepTarget.place : SweepTarget → FilePath
  | .host => [hostName]
  | .guest vmid => [pctName, ⟨numeral vmid, isName_numeral vmid⟩]

theorem SweepTarget.place_ne_nil (target : SweepTarget) : target.place ≠ [] := by
  cases target <;> exact List.cons_ne_nil _ _

theorem text_place (target : SweepTarget) :
    FilePath.text target.place = repoPrefixForSweepTarget target := by
  cases target with
  | host => exact text_singleton hostName
  | guest vmid =>
    show FilePath.text [pctName, _] = _
    rw [text_cons_cons, text_singleton]
    rfl

/-- A string without `..` and null bytes is a place in the repository. -/
theorem mirrorAbsPath_eq {repoDir : FilePath} {rel : Str} (hup : up ∉ segments rel)
    (hnul : nulChar ∉ rel) : mirrorAbsPath repoDir rel = .ok (names (segments rel)) := by
  unfold mirrorAbsPath
  dsimp only
  rw [resolve_eq hup, if_neg (not_not_intro (List.prefix_append _ _)), if_neg hnul,
    List.drop_left]

theorem mirrorAbsPath_text (repoDir p : FilePath) :
    mirrorAbsPath repoDir (FilePath.text p) = .ok p := by
  rw [mirrorAbsPath_eq (up_notMem_segments_text p) (nul_notMem_text p), names_segments_text]

/-- What passes is absolute, and has no null byte and no `..` segment. -/
theorem assertSafeAbsolute_eq_ok {p : Str} :
    assertSafeAbsolute p = .ok () ↔ p.head? = some '/' ∧ nulChar ∉ p ∧ up ∉ segments p := by
  unfold assertSafeAbsolute
  split
  · next h => exact iff_of_false nofun fun hall => h hall.1
  next hslash =>
  split
  · next h => exact iff_of_false nofun fun hall => hall.2.1 h
  next hnul =>
  split
  · next h => exact iff_of_false nofun fun hall => hall.2.2 h
  next hup => exact iff_of_true rfl ⟨not_not.mp hslash, hnul, hup⟩

/-- A path of a remote file, written as its names. -/
def remoteText (p : FilePath) : Str :=
  '/' :: FilePath.text p

theorem remoteText_injective : Function.Injective remoteText := fun _ _ h =>
  text_injective (List.cons.inj h).2

theorem segments_remoteText (p : FilePath) :
    segments (remoteText p) = [] :: segments (FilePath.text p) :=
  segments_slash [] (FilePath.text p)

theorem names_segments_remoteText (p : FilePath) : names (segments (remoteText p)) = p := by
  rw [segments_remoteText, names_cons, names_segments_text]
  rfl

theorem stripLeadingSlash_remoteText (p : FilePath) :
    stripLeadingSlash (remoteText p) = FilePath.text p := by
  show List.dropWhile _ ('/' :: FilePath.text p) = _
  rw [List.dropWhile_cons_of_pos (by decide)]
  have hhead := head_text p
  cases htext : FilePath.text p with
  | nil => rfl
  | cons c l =>
    rw [htext] at hhead
    refine List.dropWhile_cons_of_neg fun hc => hhead ?_
    rw [of_decide_eq_true hc]
    rfl

theorem assertSafeAbsolute_remoteText (p : FilePath) :
    assertSafeAbsolute (remoteText p) = .ok () := by
  refine assertSafeAbsolute_eq_ok.mpr ⟨rfl, ?_, ?_⟩
  · show nulChar ∉ '/' :: FilePath.text p
    rw [List.mem_cons, not_or]
    exact ⟨by decide, nul_notMem_text p⟩
  · rw [segments_remoteText, List.mem_cons, not_or]
    exact ⟨by decide, up_notMem_segments_text p⟩

/-- A remote path that is written as its names is below the directory of its target. -/
theorem mirrorRelPathForSweepFile_text (target : SweepTarget) {p : FilePath} (hp : p ≠ []) :
    mirrorRelPathForSweepFile target (remoteText p) = .ok (FilePath.text (target.place ++ p)) := by
  unfold mirrorRelPathForSweepFile
  rw [assertSafeAbsolute_remoteText]
  show Except.ok (repoPrefixForSweepTarget target ++ '/' :: stripLeadingSlash (remoteText p)) = _
  rw [stripLeadingSlash_remoteText, ← text_place, text_append target.place_ne_nil hp]

end HomelabMcp.History
