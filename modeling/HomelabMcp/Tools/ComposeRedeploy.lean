import HomelabMcp.Docker.ComposeFile
import HomelabMcp.Guardrails.PathValidation
import HomelabMcp.Lib.Trim
import HomelabMcp.Tools.DockerRestart
import HomelabMcp.Tools.ScreenedExec

/-!
# Redeploying a compose project (composeRedeploy.ts)

A project that was started with `--env-file` needs the same files again. The caller names
them, or they are read off the labels of the project's containers; either way they are paths,
and their content is never looked at.

- `tokenize_buildComposeUpCommand`: the words of the command, whatever the paths are.
- `mem_parseEnvFileLabel`: which files a label names.
- `compose_redeploy_keeps_files`: whatever is answered, the project is brought up in its guest
  from its own file and with the files so found, at most once, and that is on record.
-/

namespace HomelabMcp.Tools

open SlashPath Text Shell Audit Guardrails Program Quoting
open Docker (ContainerIdentity parseContainerIdentities configFilesInclude parseEnvFileLabel
  buildContainerIdentityCommand)

/-! ## The handler -/

/-- dockerHelpers.ts:469. -/
def buildComposeUpCommand (composePath : Str) (envFiles : List Str) : Str :=
  "docker compose -f ".toList ++ shSingleQuote composePath ++
    ((envFiles.flatMap fun f => " --env-file ".toList ++ shSingleQuote f) ++ " up -d".toList)

/-- composeRedeploy.ts:29. -/
structure ComposeRedeployInput where
  vmid : Nat
  composePath : Str
  envFiles : Option (List Str)
  confirm : Bool

/-- What the tool reads of the configuration. -/
structure RedeployConfig extends ExecConfig where
  pathAllowlist : Option (List Str)
  pathDenylist : List Str

/-- composeRedeploy.ts:52; the source leaves `warnings` out when there are none. -/
structure ComposeRedeployResult extends CommandResult where
  envFiles : List Str
  warnings : List Str

/-- An entry of the caller's that is not the path of one file. -/
def badEnvFile (f : Str) : Bool :=
  f.contains ',' || (parseEnvFileLabel f).1.length != 1

def badEnvFiles (bad : List Str) : Str :=
  "Invalid envFiles entr".toList ++ (if 1 < bad.length then "ies".toList else "y".toList) ++
    ": ".toList ++ commaJoin (bad.map Json.quote) ++ " (absolute paths only).".toList

section
variable (input : ComposeRedeployInput)

def projectScanLine : Str :=
  buildPctExecCommand input.vmid (buildContainerIdentityCommand true) {}

def composeUpLine (envFiles : List Str) : Str :=
  buildPctExecCommand input.vmid (buildComposeUpCommand input.composePath envFiles) {}

/-- The containers of the project, running or stopped. -/
def projectContainers (scan : CommandResult) : List ContainerIdentity :=
  (parseContainerIdentities scan.stdout).filter fun c =>
    configFilesInclude c.composeConfigFiles input.composePath

/-- The env files by the containers' labels, and the warnings. -/
def labelledEnvFiles (scan : CommandResult) : List Str × List Str :=
  if scan.exitCode ≠ some 0 then
    ([], [("Could not read the project's containers to find its env files; " ++
      "using compose's default .env only.").toList])
  else
    let labels := ((projectContainers input scan).map ContainerIdentity.composeEnvFiles).eraseDups
    if 1 < labels.length then
      ([], ["The project's containers disagree on environment_file (".toList ++
        " vs ".toList.intercalate (labels.map Json.quote) ++
        "); using none. Pass envFiles explicitly.".toList])
    else
      let parsed := parseEnvFileLabel (labels.headD [])
      (parsed.1, parsed.2.map fun r => "Ignored environment_file entry ".toList ++ Json.quote r ++
        " (not a plain absolute path).".toList)

/-- composeRedeploy.ts:106. -/
def recordedEnvFiles (cfg : RedeployConfig) : ShellTool (List Str × List Str) := do
  let scan ← transportExec (projectScanLine input) (some cfg.commandTimeoutMs)
  pure (labelledEnvFiles input scan)

/-- composeRedeploy.ts:69. -/
def chooseEnvFiles (cfg : RedeployConfig) : ShellTool (List Str × List Str) :=
  match input.envFiles with
  | none => recordedEnvFiles input cfg
  | some files =>
    if files.filter badEnvFile ≠ [] then throw (badEnvFiles (files.filter badEnvFile))
    else pure (files.eraseDups, [])

/-- composeRedeploy.ts:82. -/
def redeployRecord (cfg : RedeployConfig) (envFiles : List Str) (result : CommandResult) :
    AuditFields where
  tool := .composeRedeploy
  host := some cfg.host
  vmid := some input.vmid
  path := some input.composePath
  exitCode := some result.exitCode
  signal := result.signal
  timedOut := result.timedOut
  isLargeChange := some true
  isRevertible := some false
  note := some ("docker compose up -d (".toList ++ input.composePath ++ ") in ".toList ++
    numeral input.vmid ++
      if envFiles = [] then [] else "; --env-file ".toList ++ commaJoin envFiles)

/-- composeRedeploy.ts:47. -/
def composeRedeployHandler (cfg : RedeployConfig) : ShellTool ComposeRedeployResult :=
  if input.confirm = false then
    throw ("Refusing compose_redeploy on ".toList ++ numeral input.vmid ++
      (" without confirm: true. A redeploy recreates the stack's containers and disrupts " ++
        "running services. Re-issue with confirm: true.").toList)
  else match validatePath input.composePath cfg.pathAllowlist (some cfg.pathDenylist) with
  | some reason => throw ("Invalid compose file path: ".toList ++ reason)
  | none => do
    let (envFiles, warnings) ← chooseEnvFiles input cfg
    let result ← transportExec (composeUpLine input envFiles) (some cfg.commandTimeoutMs)
    append (redeployRecord input cfg envFiles result)
    pure { result with envFiles, warnings }

end

/-! ## The words of the command -/

/-- What the shell of the guest is to read. -/
def composeUpWords (composePath : Str) (envFiles : List Str) : List Str :=
  ["docker".toList, "compose".toList, "-f".toList, composePath] ++
    (envFiles.flatMap fun f => ["--env-file".toList, f]) ++ ["up".toList, "-d".toList]

theorem isWord_compose : ∀ w ∈ ["docker".toList, "compose".toList, "-f".toList], IsWord w := by
  simp only [List.forall_mem_cons]
  exact ⟨isWord_of_all (by decide) (by decide), isWord_of_all (by decide) (by decide),
    isWord_of_all (by decide) (by decide), fun _ h => absurd h List.not_mem_nil⟩

theorem isWord_envFile : ∀ w ∈ ["--env-file".toList], IsWord w :=
  fun _ hw => List.mem_singleton.mp hw ▸ isWord_of_all (by decide) (by decide)

/-- Behind a word that has been read. -/
theorem scan_envFiles (w : Str) (envFiles : List Str) :
    scan .bare (some w)
        ((envFiles.flatMap fun f => " --env-file ".toList ++ quoted f) ++ " up -d".toList) =
      (w :: (envFiles.flatMap fun f => ["--env-file".toList, f]) ++
        ["up".toList, "-d".toList]).map .word := by
  -- Each file ends the word before it, and its own is still open behind it.
  induction envFiles generalizing w with
  | nil =>
    have hup : " up -d".toList = ' ' :: "up -d".toList := by decide
    have hend : scan .bare none "up -d".toList = [.word "up".toList, .word "-d".toList] := by
      decide +kernel
    rw [List.flatMap_nil, List.nil_append, hup, scan_blank, hend]
    rfl
  | cons f envFiles ih =>
    have hoption : " --env-file ".toList = ' ' :: spaced ["--env-file".toList] := by decide
    have hhead : " --env-file ".toList ++ quoted f =
        ' ' :: (spaced ["--env-file".toList] ++ quoted f) :=
      congrArg (fun o => o ++ quoted f) hoption
    rw [List.flatMap_cons, hhead, List.cons_append, List.cons_append, scan_blank,
      List.append_assoc, List.append_assoc, scan_spaced isWord_envFile, scan_quoted, ih]
    rfl

section
variable {composePath : Str} {envFiles : List Str}

theorem nul_notMem_buildComposeUpCommand (hpath : Shell.nul ∉ composePath)
    (hfiles : ∀ f ∈ envFiles, Shell.nul ∉ f) :
    Shell.nul ∉ buildComposeUpCommand composePath envFiles := by
  unfold buildComposeUpCommand
  rw [List.mem_append, List.mem_append, List.mem_append, List.mem_flatMap]
  rintro ((hfront | hquoted) | ⟨f, hf, hmem⟩ | hback)
  · exact absurd hfront (by decide)
  · exact nul_notMem_quoted hpath hquoted
  · rcases List.mem_append.mp hmem with hoption | hquoted
    · exact absurd hoption (by decide)
    · exact nul_notMem_quoted (hfiles f hf) hquoted
  · exact absurd hback (by decide)

theorem tokenize_buildComposeUpCommand (hpath : Shell.nul ∉ composePath)
    (hfiles : ∀ f ∈ envFiles, Shell.nul ∉ f) :
    tokenize (buildComposeUpCommand composePath envFiles) =
      (composeUpWords composePath envFiles).map .word := by
  have hfront : "docker compose -f ".toList =
      spaced ["docker".toList, "compose".toList, "-f".toList] := by decide
  rw [tokenize_eq_scan (nul_notMem_buildComposeUpCommand hpath hfiles)]
  unfold buildComposeUpCommand shSingleQuote
  rw [hfront, List.append_assoc, scan_spaced isWord_compose, scan_quoted, scan_envFiles]
  rfl

example : tokenize (buildComposeUpCommand "/opt/it's/compose.yml".toList ["/data/.env".toList]) =
    ["docker".toList, "compose".toList, "-f".toList, "/opt/it's/compose.yml".toList,
      "--env-file".toList, "/data/.env".toList, "up".toList, "-d".toList].map .word := by
  decide +kernel

end

/-! ## The files of a label -/

/-- The absolute path of a file, which climbs nowhere and has no control character. -/
structure PlainPath (p : Str) : Prop where
  absolute : p.head? = some '/'
  printable : ∀ c ∈ p, 0x20 ≤ c.toNat
  straight : ['.', '.'] ∉ List.splitOn '/' p

/-- What `parseEnvFileLabel` does with one entry of the label. -/
def addEnvFile (acc : List Str × List Str) (raw : Str) : List Str × List Str :=
  let p := trim raw
  if p = [] ∨ p = "<no value>".toList then acc
  else if p.head? ≠ some '/' ∨ p.any (fun c => decide (c.toNat < 0x20)) = true ∨
      (List.splitOn '/' p).contains ['.', '.'] = true then
    (acc.1, acc.2 ++ [p])
  else if acc.1.contains p then acc
  else (acc.1 ++ [p], acc.2)

theorem parseEnvFileLabel_eq (label : Str) :
    parseEnvFileLabel label = (List.splitOn ',' label).foldl addEnvFile ([], []) := rfl

theorem not_plainPath_iff {p : Str} :
    (p.head? ≠ some '/' ∨ p.any (fun c => decide (c.toNat < 0x20)) = true ∨
      (List.splitOn '/' p).contains ['.', '.'] = true) ↔ ¬PlainPath p := by
  have hplain : PlainPath p ↔ p.head? = some '/' ∧ (∀ c ∈ p, 0x20 ≤ c.toNat) ∧
      ['.', '.'] ∉ List.splitOn '/' p :=
    ⟨fun h => ⟨h.absolute, h.printable, h.straight⟩, fun h => ⟨h.1, h.2.1, h.2.2⟩⟩
  rw [hplain, List.any_eq_true, List.contains_iff_mem, not_and_or, not_and_or, not_not]
  simp only [decide_eq_true_eq, not_forall, not_le, exists_prop]

/-- One entry says nothing, or is rejected, or is named already, or is named now. -/
inductive Entry (acc : List Str × List Str) (raw : Str) : List Str × List Str → Prop
  | silent (h : trim raw = [] ∨ trim raw = "<no value>".toList) : Entry acc raw acc
  | rejected (h : ¬PlainPath (trim raw)) : Entry acc raw (acc.1, acc.2 ++ [trim raw])
  | again (h : PlainPath (trim raw)) (hin : trim raw ∈ acc.1) : Entry acc raw acc
  | named (h : PlainPath (trim raw)) : Entry acc raw (acc.1 ++ [trim raw], acc.2)

theorem entry_addEnvFile (acc : List Str × List Str) (raw : Str) :
    Entry acc raw (addEnvFile acc raw) := by
  unfold addEnvFile
  dsimp only
  split
  · next h => exact .silent h
  split
  · next h => exact .rejected (not_plainPath_iff.mp h)
  next h =>
  rw [not_plainPath_iff, not_not] at h
  split
  · next hin => exact .again h (List.contains_iff_mem.mp hin)
  · exact .named h

theorem Entry.mem_iff {acc acc' : List Str × List Str} {raw p : Str} (h : Entry acc raw acc') :
    p ∈ acc'.1 ↔ p ∈ acc.1 ∨ (p = trim raw ∧ PlainPath p) := by
  have hkept (h : ¬PlainPath (trim raw)) :
      p ∈ acc.1 ↔ p ∈ acc.1 ∨ (p = trim raw ∧ PlainPath p) := by
    refine (or_iff_left ?_).symm
    rintro ⟨rfl, hplain⟩
    exact h hplain
  cases h with
  | silent hempty =>
    -- neither of the two begins with a slash
    refine hkept fun h => ?_
    have hhead := h.absolute
    rcases hempty with heq | heq <;> rw [heq] at hhead <;> exact absurd hhead (by decide)
  | rejected h => exact hkept h
  | again h hin =>
    have hkeep : p = trim raw ∧ PlainPath p → p ∈ acc.1 := fun hp => hp.1 ▸ hin
    exact (or_iff_left_of_imp hkeep).symm
  | named h =>
    rw [List.mem_append, List.mem_singleton]
    exact or_congr_right ⟨fun heq => ⟨heq, heq ▸ h⟩, fun hp => hp.1⟩

theorem mem_foldl_addEnvFile {raws : List Str} {acc : List Str × List Str} {p : Str} :
    p ∈ (raws.foldl addEnvFile acc).1 ↔
      p ∈ acc.1 ∨ (∃ raw ∈ raws, p = trim raw) ∧ PlainPath p := by
  induction raws generalizing acc with
  | nil => simp
  | cons raw raws ih =>
    rw [List.foldl_cons, ih, (entry_addEnvFile acc raw).mem_iff, List.exists_mem_cons_iff,
      or_assoc, or_and_right]

theorem Entry.mem_rejected {acc acc' : List Str × List Str} {raw p : Str}
    (h : Entry acc raw acc') (hp : p ∈ acc.2) : p ∈ acc'.2 := by
  cases h with
  | silent | again | named => exact hp
  | rejected => exact List.mem_append_left _ hp

theorem mem_rejected_foldl {raws : List Str} {acc : List Str × List Str} {p : Str}
    (h : p ∈ acc.2) : p ∈ (raws.foldl addEnvFile acc).2 := by
  induction raws generalizing acc with
  | nil => exact h
  | cons raw raws ih => exact ih ((entry_addEnvFile acc raw).mem_rejected h)

/-- An entry says nothing, or it is named, or else it is rejected. -/
def Accounted (acc : List Str × List Str) (raw : Str) : Prop :=
  (trim raw = [] ∨ trim raw = "<no value>".toList) ∨ trim raw ∈ acc.1 ∨ trim raw ∈ acc.2

theorem Entry.accounted {acc acc' : List Str × List Str} {raw : Str} (h : Entry acc raw acc') :
    Accounted acc' raw := by
  cases h with
  | silent h => exact .inl h
  | rejected => exact .inr (.inr (List.mem_append_right _ (List.mem_singleton_self _)))
  | again _ hin => exact .inr (.inl hin)
  | named => exact .inr (.inl (List.mem_append_right _ (List.mem_singleton_self _)))

theorem accounted_foldl {raws : List Str} {acc : List Str × List Str} {raw : Str}
    (h : Accounted acc raw) : Accounted (raws.foldl addEnvFile acc) raw :=
  h.imp_right fun hlisted =>
    hlisted.imp (fun hnamed => mem_foldl_addEnvFile.mpr (.inl hnamed)) mem_rejected_foldl

theorem accounted_parseEnvFileLabel {label raw : Str} (h : raw ∈ List.splitOn ',' label) :
    Accounted (parseEnvFileLabel label) raw := by
  rw [parseEnvFileLabel_eq]
  obtain ⟨front, rest, hsplit⟩ := List.append_of_mem h
  rw [hsplit, List.foldl_append, List.foldl_cons]
  exact accounted_foldl (entry_addEnvFile _ raw).accounted

/-- A label names its entries that are plain paths, white space around them left out. -/
theorem mem_parseEnvFileLabel {label p : Str} :
    p ∈ (parseEnvFileLabel label).1 ↔
      (∃ raw ∈ List.splitOn ',' label, p = trim raw) ∧ PlainPath p := by
  rw [parseEnvFileLabel_eq, mem_foldl_addEnvFile]
  exact or_iff_right List.not_mem_nil

/-! ## The files that are chosen -/

/-- A name of one file, perhaps between white space. -/
structure EnvPath (f : Str) : Prop where
  plain : PlainPath (trim f)
  single : ',' ∉ f

theorem EnvPath.nul_notMem {f : Str} (h : EnvPath f) : Shell.nul ∉ f := by
  intro hmem
  -- It is no white space, and what is trimmed of it has no control character.
  rw [trim_spec f, List.mem_append, List.mem_append] at hmem
  rcases hmem with hblank | hin | hblank
  · exact absurd (blank_takeWhile f _ hblank) (by decide)
  · exact absurd (h.plain.printable _ hin) (by decide)
  · exact absurd (blank_rtakeWhile _ _ hblank) (by decide)

theorem envPath_of_mem_label {label f : Str} (h : f ∈ (parseEnvFileLabel label).1) :
    EnvPath f := by
  obtain ⟨⟨raw, hraw, rfl⟩, hplain⟩ := mem_parseEnvFileLabel.mp h
  refine ⟨(trim_trim raw).symm ▸ hplain, fun hmem => ?_⟩
  exact notMem_of_mem_splitOn hraw (mem_of_mem_trim hmem)

theorem envPath_of_given {f : Str} (h : badEnvFile f = false) : EnvPath f := by
  obtain ⟨hcomma, hone⟩ := Bool.or_eq_false_iff.mp h
  have hsingle : ',' ∉ f := fun hmem => by
    rw [List.contains_iff_mem.mpr hmem] at hcomma
    cases hcomma
  obtain ⟨p, hp⟩ : ∃ p, p ∈ (parseEnvFileLabel f).1 := by
    refine List.exists_mem_of_length_pos ?_
    rw [bne_eq_false_iff_eq.mp hone]
    exact Nat.one_pos
  obtain ⟨⟨raw, hraw, rfl⟩, hplain⟩ := mem_parseEnvFileLabel.mp hp
  rw [List.splitOn_eq_singleton hsingle, List.mem_singleton] at hraw
  exact ⟨hraw ▸ hplain, hsingle⟩

section
variable (input : ComposeRedeployInput)

/-- The files for the project, by what the caller gave or else by what the listing answered. -/
inductive Chosen : Option (Except Str CommandResult) → List Str → Prop
  | given (files : List Str) (h : input.envFiles = some files) : Chosen none files.eraseDups
  | unread (scan : CommandResult) (h : input.envFiles = none) (hread : scan.exitCode ≠ some 0) :
    Chosen (some (.ok scan)) []
  | absent (scan : CommandResult) (h : input.envFiles = none) (hread : scan.exitCode = some 0)
    (hnone : projectContainers input scan = []) : Chosen (some (.ok scan)) []
  | agreed (scan : CommandResult) (h : input.envFiles = none) (hread : scan.exitCode = some 0)
    (c : ContainerIdentity) (hc : c ∈ projectContainers input scan)
    (hall : ∀ d ∈ projectContainers input scan, d.composeEnvFiles = c.composeEnvFiles) :
    Chosen (some (.ok scan)) (parseEnvFileLabel c.composeEnvFiles).1
  | torn (scan : CommandResult) (h : input.envFiles = none) (hread : scan.exitCode = some 0)
    (c d : ContainerIdentity) (hc : c ∈ projectContainers input scan)
    (hd : d ∈ projectContainers input scan) (hne : c.composeEnvFiles ≠ d.composeEnvFiles) :
    Chosen (some (.ok scan)) []

/-- The listing was read, and no entry of the labels was left out. -/
structure Complete (scan : CommandResult) (envFiles : List Str) : Prop where
  read : scan.exitCode = some 0
  named : ∀ c ∈ projectContainers input scan, ∀ raw ∈ List.splitOn ',' c.composeEnvFiles,
    (trim raw = [] ∨ trim raw = "<no value>".toList) ∨ trim raw ∈ envFiles

variable {input} {scan : CommandResult}

theorem chosen_labelled (h : input.envFiles = none) (scan : CommandResult) :
    Chosen input (some (.ok scan)) (labelledEnvFiles input scan).1 := by
  unfold labelledEnvFiles
  split
  · next hread => exact .unread scan h hread
  next hread =>
  rw [not_not] at hread
  dsimp only
  have hmem (l : Str) : l ∈ ((projectContainers input scan).map
      ContainerIdentity.composeEnvFiles).eraseDups ↔
        ∃ c ∈ projectContainers input scan, c.composeEnvFiles = l := by
    rw [List.mem_eraseDups, List.mem_map]
  have hnodup := Docker.nodup_eraseDups
    ((projectContainers input scan).map ContainerIdentity.composeEnvFiles)
  cases hlabels : ((projectContainers input scan).map
      ContainerIdentity.composeEnvFiles).eraseDups with
  | nil =>
    refine .absent scan h hread (List.eq_nil_iff_forall_not_mem.mpr fun c hc => ?_)
    exact List.not_mem_nil (hlabels ▸ (hmem _).mpr ⟨c, hc, rfl⟩)
  | cons label labels =>
    rw [hlabels] at hmem hnodup
    obtain ⟨c, hc, rfl⟩ := (hmem label).mp List.mem_cons_self
    cases labels with
    | nil =>
      refine .agreed scan h hread c hc fun d hd => ?_
      exact List.mem_singleton.mp ((hmem _).mpr ⟨d, hd, rfl⟩)
    | cons other labels =>
      obtain ⟨d, hd, rfl⟩ := (hmem other).mp (List.mem_cons_of_mem _ List.mem_cons_self)
      have hmany : 1 < (c.composeEnvFiles :: d.composeEnvFiles :: labels).length :=
        Nat.succ_lt_succ (Nat.succ_pos _)
      rw [if_pos hmany]
      refine .torn scan h hread c d hc hd fun heq => ?_
      exact (List.nodup_cons.mp hnodup).1 (heq ▸ List.mem_cons_self)

/-- Without a warning, no file was left out. -/
theorem complete_labelled (h : (labelledEnvFiles input scan).2 = []) :
    Complete input scan (labelledEnvFiles input scan).1 := by
  unfold labelledEnvFiles at h ⊢
  by_cases hread : scan.exitCode ≠ some 0
  · rw [if_pos hread] at h
    exact absurd h (List.cons_ne_nil _ _)
  rw [if_neg hread] at h ⊢
  dsimp only at h ⊢
  have hmem {c : ContainerIdentity} (hc : c ∈ projectContainers input scan) :
      c.composeEnvFiles ∈ ((projectContainers input scan).map
        ContainerIdentity.composeEnvFiles).eraseDups :=
    List.mem_eraseDups.mpr (List.mem_map_of_mem hc)
  generalize ((projectContainers input scan).map
    ContainerIdentity.composeEnvFiles).eraseDups = labels at h hmem ⊢
  by_cases hmany : 1 < labels.length
  · rw [if_pos hmany] at h
    exact absurd h (List.cons_ne_nil _ _)
  rw [if_neg hmany] at h ⊢
  refine ⟨not_not.mp hread, fun c hc raw hraw => ?_⟩
  obtain ⟨label, rfl⟩ : ∃ label, labels = [label] :=
    List.length_eq_one_iff.mp (le_antisymm (not_lt.mp hmany) (List.length_pos_of_mem (hmem hc)))
  rw [List.mem_singleton.mp (hmem hc)] at hraw
  have hnone : (parseEnvFileLabel label).2 = [] := List.map_eq_nil_iff.mp h
  refine (accounted_parseEnvFileLabel hraw).imp_right fun hlisted => hlisted.resolve_right ?_
  rw [hnone]
  exact List.not_mem_nil

theorem envPath_labelled {f : Str} (h : f ∈ (labelledEnvFiles input scan).1) : EnvPath f := by
  unfold labelledEnvFiles at h
  split at h
  · exact absurd h List.not_mem_nil
  dsimp only at h
  split at h
  · exact absurd h List.not_mem_nil
  · exact envPath_of_mem_label h

/-- The listing is there when the caller has given no files. -/
theorem Chosen.settled {answer : Option (Except Str CommandResult)} {envFiles : List Str}
    (h : Chosen input answer envFiles) : (input.envFiles.isNone && answer.isNone) = false := by
  cases h with
  | given files h => rw [h]; rfl
  | unread | absent | agreed | torn => exact Bool.and_false _

end

/-! ## What happens in a run -/

/-- What has been answered so far: the listing, and the redeploy, with the line for that. -/
structure RedeployTrail where
  scan : Option (Except Str CommandResult)
  up : Option (Str × Except Str CommandResult)
  records : List AuditFields

namespace RedeployTrail

def start : RedeployTrail := ⟨none, none, []⟩

section
variable (input : ComposeRedeployInput) (cfg : RedeployConfig)

/-- The listing comes first, unless the caller has given the files. -/
def next (s : RedeployTrail) :
    (c : ToolCall ShellCall) → ToolAnswer (fun _ => CommandResult) c → RedeployTrail
  | .op c, answer =>
    if input.envFiles.isNone && s.scan.isNone then { s with scan := some answer }
    else { s with up := some (c.command, answer) }
  | .append record, _ => { s with records := s.records ++ [record] }
  | _, _ => s

/-- The caller has confirmed, and may name this file. -/
structure Cleared : Prop where
  confirmed : input.confirm = true
  valid : validatePath input.composePath cfg.pathAllowlist (some cfg.pathDenylist) = none

/-- In its guest, the project is brought up from its own file and with these files, each a plain
path, and nothing else comes of the command. -/
structure BringsUp (envFiles : List Str) (c : ShellCall) : Prop where
  paths : ∀ f ∈ envFiles, EnvPath f
  line : c.command = composeUpLine input envFiles
  words : ∃ inner, Runs .node (c.wrapped cfg.toExecConfig) (.guest input.vmid) inner ∧
    tokenize inner = (composeUpWords input.composePath envFiles).map .word

/-- Which calls may be made. -/
def allowed (s : RedeployTrail) : ToolCall ShellCall → Prop
  | .op c => Cleared input cfg ∧ s.up = none ∧
    (input.envFiles = none ∧ s.scan = none ∧ c.command = projectScanLine input ∨
      ∃ envFiles, Chosen input s.scan envFiles ∧ BringsUp input cfg envFiles c)
  | .append record => s.records = [] ∧ ∃ result envFiles,
    s.up = some (composeUpLine input envFiles, .ok result) ∧
      record = redeployRecord input cfg envFiles result
  | _ => False

def monitor : Monitor (ToolCall ShellCall) (ToolAnswer fun _ => CommandResult) RedeployTrail where
  next := next input
  allowed := allowed input cfg

/-- How a run ends: brought up and on record once, with a warning if a file may be missing; or
in an error, where the project was left alone or the answer was lost, and nothing is on
record. -/
def Ends (s : RedeployTrail) : Outcome Str ComposeRedeployResult → Prop
  | .returned result => s.records.length = 1 ∧ Chosen input s.scan result.envFiles ∧
    s.up = some (composeUpLine input result.envFiles, .ok result.toCommandResult) ∧
      (result.warnings = [] → ∀ scan, s.scan = some (.ok scan) →
        Complete input scan result.envFiles)
  | .thrown e => s.records = [] ∧ (s.up = none ∨ ∃ line, s.up = some (line, .error e))
  | .unfinished => False

end

variable {input : ComposeRedeployInput} {cfg : RedeployConfig}

theorem meets_chooseEnvFiles {post : RedeployTrail → Outcome Str (List Str × List Str) → Prop}
    (hcleared : Cleared input cfg) (hthrown : ∀ scan e, post ⟨scan, none, []⟩ (.thrown e))
    (hchosen : ∀ answer envFiles warnings, Chosen input answer envFiles →
      (∀ f ∈ envFiles, EnvPath f) → (warnings = [] → ∀ scan, answer = some (.ok scan) →
        Complete input scan envFiles) →
      post ⟨answer, none, []⟩ (.returned (envFiles, warnings))) :
    (monitor input cfg).Meets post start (chooseEnvFiles input cfg) := by
  unfold chooseEnvFiles
  cases hgiven : input.envFiles with
  | some files =>
    refine Monitor.meets_ite.mpr ⟨fun _ => hthrown none _, fun hgood => ?_⟩
    refine hchosen none _ _ (.given files hgiven) (fun f hf => envPath_of_given ?_)
      fun _ _ hanswer => by cases hanswer
    have hnone := List.filter_eq_nil_iff.mp (not_not.mp hgood) f (List.mem_eraseDups.mp hf)
    exact Bool.not_eq_true _ ▸ hnone
  | none =>
    have hnext (c : ShellCall) (answer : Except Str CommandResult) :
        (monitor input cfg).next start (.op c) answer = ⟨some answer, none, []⟩ :=
      if_pos (by rw [hgiven]; rfl)
    refine Monitor.meets_bind.mpr (meets_perform.mpr
      ⟨⟨hcleared, rfl, .inl ⟨hgiven, rfl, rfl⟩⟩, fun scan => ?_, fun e => ?_⟩)
    · rw [hnext]
      refine hchosen _ _ _ (chosen_labelled hgiven scan) (fun f hf => envPath_labelled hf)
        fun hsilent listing hlisting => ?_
      cases hlisting
      exact complete_labelled hsilent
    · rw [hnext]
      exact hthrown _ e

theorem bringsUp {envFiles : List Str} {wait : Option Int} (hcleared : Cleared input cfg)
    (hpaths : ∀ f ∈ envFiles, EnvPath f) :
    BringsUp input cfg envFiles ⟨composeUpLine input envFiles, wait⟩ where
  paths := hpaths
  line := rfl
  words := by
    have hpath : Shell.nul ∉ input.composePath :=
      (validatePath_eq_none_iff.mp hcleared.valid).2.1
    have hfiles : ∀ f ∈ envFiles, Shell.nul ∉ f := fun f hf => (hpaths f hf).nul_notMem
    have hline := nul_notMem_buildComposeUpCommand hpath hfiles
    exact ⟨_, runs_wrapped (nul_notMem_buildPctExecCommand hline)
        (runs_buildPctExecCommand input.vmid {} hline),
      tokenize_buildComposeUpCommand hpath hfiles⟩

theorem meets_composeRedeployHandler (input : ComposeRedeployInput) (cfg : RedeployConfig) :
    (monitor input cfg).Meets (Ends input) start (composeRedeployHandler input cfg) := by
  refine Monitor.meets_ite.mpr ⟨fun _ => ⟨rfl, .inl rfl⟩, fun hconfirm => ?_⟩
  cases hvalid : validatePath input.composePath cfg.pathAllowlist (some cfg.pathDenylist) with
  | some reason => exact ⟨rfl, .inl rfl⟩
  | none =>
    have hcleared : Cleared input cfg := ⟨Bool.not_eq_false _ ▸ hconfirm, hvalid⟩
    refine Monitor.meets_bind.mpr (meets_chooseEnvFiles hcleared (fun _ _ => ⟨rfl, .inl rfl⟩)
      fun scan envFiles warnings hchosen hpaths hcomplete => ?_)
    have hnext (c : ShellCall) (answer : Except Str CommandResult) :
        (monitor input cfg).next ⟨scan, none, []⟩ (.op c) answer =
          ⟨scan, some (c.command, answer), []⟩ :=
      if_neg (Bool.eq_false_iff.mp hchosen.settled)
    refine Monitor.meets_bind.mpr (meets_perform.mpr
      ⟨⟨hcleared, rfl, .inr ⟨envFiles, hchosen, bringsUp hcleared hpaths⟩⟩, fun result => ?_,
        fun e => ?_⟩)
    · rw [hnext]
      refine Monitor.meets_bind.mpr (meets_append.mpr
        ⟨⟨rfl, result, envFiles, rfl, rfl⟩, ?_⟩)
      exact ⟨rfl, hchosen, rfl, hcomplete⟩
    · rw [hnext]
      exact ⟨rfl, .inr ⟨_, rfl⟩⟩

end RedeployTrail

/-- Whatever is answered, the calls of `compose_redeploy` keep to the rules, and a run ends as
`Ends` says. -/
theorem compose_redeploy_keeps_files (input : ComposeRedeployInput) (cfg : RedeployConfig)
    (w : Nat → (c : ToolCall ShellCall) → ToolAnswer (fun _ => CommandResult) c) :
    (RedeployTrail.monitor input cfg).Allows .start
        (run w 0 (composeRedeployHandler input cfg)).1 ∧
      RedeployTrail.Ends input
        ((RedeployTrail.monitor input cfg).after .start
          (run w 0 (composeRedeployHandler input cfg)).1)
        (run w 0 (composeRedeployHandler input cfg)).2 :=
  (RedeployTrail.meets_composeRedeployHandler input cfg).run w 0

end HomelabMcp.Tools
