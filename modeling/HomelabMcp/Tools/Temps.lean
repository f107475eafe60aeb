import HomelabMcp.Tools.DockerFiles
import HomelabMcp.Tools.Session

/-!
# Temporary files (pctFiles.ts, dockerFiles.ts)

The transfers to and from containers go through temporary files, of the node and of the guest.
A monitor keeps those that `mktemp` has reported and that were not yet handed to `rm`.

- `temps_removed`: whatever the transport answers, a transfer hands each temporary file that it
  was given to `rm`, once, and reads and writes no other file of the node.
-/

namespace HomelabMcp.Tools

open SlashPath Text Integrity Program

/-- What a transfer asks of the transport. -/
inductive TransferCall
  | exec (command : Str)
  | readFile (path : Str)
  | writeFile (path : Str) (content : Bytes)

@[reducible] def TransferResult : TransferCall → Type
  | .exec _ => ExecResult
  | .readFile _ => Bytes
  | .writeFile _ _ => Unit

def transferTransport : SshTransport (Tool TransferResult) where
  exec command := perform (TransferCall.exec command)
  readFile path := perform (TransferCall.readFile path)
  writeFile path content := perform (TransferCall.writeFile path content)

/-- A transfer to or from a guest, or a Docker container of it. -/
inductive Transfer
  | pull (remotePath : Str)
  | push (remotePath : Str) (content : Bytes) (perms : GuestPerms)
  | readDocker (container path : Str) (mounts : List Docker.DockerMount)
  | writeDocker (container path : Str) (content : Bytes) (mounts : List Docker.DockerMount)
      (prevPerms : Option GuestPerms) (newFileDefaults : GuestPerms)

/-- The transfer as it runs. -/
def Transfer.program (vmid : Nat) (tempDir : Str) : Transfer → Tool TransferResult Unit
  | .pull remotePath => do
    let _ ← pullContainerFile transferTransport vmid remotePath tempDir
    pure ()
  | .push remotePath content perms =>
    pushContainerFile transferTransport vmid remotePath content perms tempDir
  | .readDocker container path mounts => do
    let _ ← readDockerFile transferTransport vmid container path mounts tempDir
    pure ()
  | .writeDocker container path content mounts prevPerms newFileDefaults => do
    let _ ← writeDockerFile transferTransport vmid container path content mounts prevPerms
      newFileDefaults tempDir
    pure ()

/-! ## What a command is for -/

/-- A temporary file of the node, or of a guest. -/
structure Temp where
  guest : Option Nat
  path : Str
  deriving DecidableEq

/-- The command that removes it. -/
def Temp.rm (t : Temp) : Str :=
  match t.guest with
  | none => buildRmCommand t.path
  | some vmid => buildPctExecCommand vmid (buildRmCommand t.path) {}

inductive Verb
  | make (guest : Option Nat)
  | remove
  | other
  deriving DecidableEq

/-- How a line begins that runs a command in a guest. -/
def guestStart (vmid : Nat) (command : Str) : Str :=
  "pct exec ".toList ++ numeral vmid ++ " -- ".toList ++ "bash -c '".toList ++ command

/-- What a command does, by its first word. -/
def verb (vmid : Nat) (command : Str) : Verb :=
  if "mktemp ".toList <+: command then .make none
  else if guestStart vmid "mktemp ".toList <+: command then .make (some vmid)
  else if "rm ".toList <+: command ∨ guestStart vmid "rm ".toList <+: command then .remove
  else .other

/-- The temporary file that `mktemp` has reported. -/
def made (guest : Option Nat) : Except Str ExecResult → List Temp
  | .ok res =>
    if res.exitCode = some 0 ∧ trim res.stdout ≠ [] then [⟨guest, trim res.stdout⟩] else []
  | .error _ => []

theorem made_ok (guest : Option Nat) (res : ExecResult) : made guest (.ok res) =
    if res.exitCode = some 0 ∧ trim res.stdout ≠ [] then [⟨guest, trim res.stdout⟩] else [] := rfl

/-- The temporary files that are there after a command, newest first; an `rm` that fails
counts as well. -/
def tempsAfter (vmid : Nat) (temps : List Temp) (command : Str) (answer : Except Str ExecResult) :
    List Temp :=
  match verb vmid command with
  | .make guest => made guest answer ++ temps
  | .remove => temps.eraseP fun t => t.rm = command
  | .other => temps

def tempsNext (vmid : Nat) (temps : List Temp) :
    (c : ToolCall TransferCall) → ToolAnswer TransferResult c → List Temp
  | .op (.exec command), answer => tempsAfter vmid temps command answer
  | _, _ => temps

/-- Only what was made is removed, and only temporary files of the node are read and written. -/
def tempsMonitor (vmid : Nat) : Monitor (ToolCall TransferCall) (ToolAnswer TransferResult)
    (List Temp) where
  next := tempsNext vmid
  allowed
    | temps, .op (.exec command) =>
      verb vmid command = .remove → ∃ t ∈ temps, command = t.rm
    | temps, .op (.readFile path) | temps, .op (.writeFile path _) => ⟨none, path⟩ ∈ temps
    | _, _ => False

/-! ## First words -/

section
variable {vmid : Nat} {temps : List Temp}

/-- Texts that differ at some place. -/
theorem not_prefix_at {l l' : Str} (i : Nat) {a b : Char} (h : l[i]? = some a)
    (h' : l'[i]? = some b) (hab : a ≠ b) : ¬l <+: l' := by
  rintro ⟨rest, rfl⟩
  obtain ⟨hlt, -⟩ := List.getElem?_eq_some_iff.mp h
  rw [List.getElem?_append_left hlt, h] at h'
  exact hab (Option.some.inj h')

theorem escapeQuotes_append {word : Str} (h : Shell.singleQuote ∉ word) (rest : Str) :
    Shell.escapeQuotes (word ++ rest) = word ++ Shell.escapeQuotes rest := by
  induction word with
  | nil => rfl
  | cons c word ih =>
    show (if c = Shell.singleQuote then _ else [c]) ++ Shell.escapeQuotes (word ++ rest) = _
    rw [if_neg (List.ne_of_not_mem_cons h).symm, ih (List.not_mem_of_not_mem_cons h)]
    rfl

theorem guestStart_isPrefix_iff {word command : Str} :
    guestStart vmid word <+: "pct exec ".toList ++ numeral vmid ++ " -- ".toList ++ command ↔
      "bash -c '".toList ++ word <+: command := by
  unfold guestStart
  rw [List.append_assoc _ "bash -c '".toList word, List.prefix_append_right_inj]

/-- What a command of a guest does, by what comes after the guest. -/
theorem verb_exec (command : Str) :
    verb vmid ("pct exec ".toList ++ numeral vmid ++ " -- ".toList ++ command) =
      if "bash -c '".toList ++ "mktemp ".toList <+: command then .make (some vmid)
      else if "bash -c '".toList ++ "rm ".toList <+: command then .remove else .other := by
  unfold verb
  -- The line begins with the `p` of `pct`, and so is neither `mktemp` nor `rm` of the node.
  rw [if_neg (not_prefix_at 0 rfl rfl (by decide))]
  simp only [guestStart_isPrefix_iff]
  congr 1
  refine if_congr (or_iff_right ?_) rfl rfl
  exact not_prefix_at 0 rfl rfl (by decide)

theorem verb_exec_plain {command : Str} {c : Char} (h : command[0]? = some c) (hc : c ≠ 'b') :
    verb vmid ("pct exec ".toList ++ numeral vmid ++ " -- ".toList ++ command) = .other := by
  rw [verb_exec, if_neg (not_prefix_at 0 rfl h hc.symm), if_neg (not_prefix_at 0 rfl h hc.symm)]

/-- What `lxcExec` is given. -/
theorem buildPctExecCommand_eq (command : Str) : buildPctExecCommand vmid command {} =
    "pct exec ".toList ++ numeral vmid ++ " -- ".toList ++
      ("bash -c '".toList ++ (Shell.escapeQuotes command ++ [Shell.singleQuote])) := rfl

theorem verb_lxc {word : Str} (h : Shell.singleQuote ∉ word) (rest : Str) :
    verb vmid (buildPctExecCommand vmid (word ++ rest) {}) =
      if "mktemp ".toList <+: word ++ (Shell.escapeQuotes rest ++ [Shell.singleQuote]) then
        .make (some vmid)
      else if "rm ".toList <+: word ++ (Shell.escapeQuotes rest ++ [Shell.singleQuote]) then .remove
      else .other := by
  rw [buildPctExecCommand_eq, verb_exec, escapeQuotes_append h, List.append_assoc word]
  simp only [List.prefix_append_right_inj]

/-! ## The commands -/

theorem verb_mkTemp (tempDir : Str) : verb vmid (buildMkTempCommand tempDir) = .make none :=
  if_pos (List.prefix_append "mktemp ".toList ("-p ".toList ++ shQuote tempDir))

theorem verb_rm (path : Str) : verb vmid (buildRmCommand path) = .remove := by
  unfold verb
  rw [if_neg (not_prefix_at 0 rfl rfl (by decide)), if_neg (not_prefix_at 0 rfl rfl (by decide))]
  exact if_pos (.inl (List.prefix_append "rm ".toList ("-f ".toList ++ shQuote path)))

theorem verb_pct {command : Str} (h : command[0]? = some 'p') (h' : command[4]? = some 'p') :
    verb vmid command = .other := by
  unfold verb
  rw [if_neg (not_prefix_at 0 rfl h (by decide)), if_neg (not_prefix_at 4 rfl h' (by decide))]
  refine if_neg (not_or.mpr ⟨not_prefix_at 0 rfl h (by decide), ?_⟩)
  exact not_prefix_at 4 rfl h' (by decide)

theorem verb_fileExists (path : Str) : verb vmid (buildFileExistsCommand vmid path) = .other := by
  have hline : buildFileExistsCommand vmid path = "pct exec ".toList ++ numeral vmid ++
      " -- ".toList ++ ("test -e ".toList ++ shQuote path) := by
    unfold buildFileExistsCommand
    simp only [List.append_assoc]
    rfl
  rw [hline]
  exact verb_exec_plain rfl (by decide)

theorem verb_stat (path : Str) : verb vmid (buildStatCommand vmid path) = .other := by
  have hline : buildStatCommand vmid path = "pct exec ".toList ++ numeral vmid ++
      " -- ".toList ++ ("stat -c '%a %u %g' ".toList ++ shQuote path) := by
    unfold buildStatCommand
    simp only [List.append_assoc]
    rfl
  rw [hline]
  exact verb_exec_plain rfl (by decide)

theorem verb_lxcMkTemp (tempDir : Str) :
    verb vmid (buildPctExecCommand vmid (buildMkTempCommand tempDir) {}) = .make (some vmid) := by
  have hline : buildMkTempCommand tempDir = "mktemp ".toList ++ ("-p ".toList ++ shQuote tempDir) :=
    rfl
  rw [hline, verb_lxc (by decide)]
  exact if_pos (List.prefix_append _ _)

theorem verb_lxcRm (path : Str) :
    verb vmid (buildPctExecCommand vmid (buildRmCommand path) {}) = .remove := by
  have hline : buildRmCommand path = "rm ".toList ++ ("-f ".toList ++ shQuote path) := rfl
  rw [hline, verb_lxc (by decide), if_neg (not_prefix_at 0 rfl rfl (by decide))]
  exact if_pos (List.prefix_append _ _)

theorem verb_lxcDocker (rest : Str) :
    verb vmid (buildPctExecCommand vmid ("docker ".toList ++ rest) {}) = .other := by
  rw [verb_lxc (by decide), if_neg (not_prefix_at 0 rfl rfl (by decide)),
    if_neg (not_prefix_at 0 rfl rfl (by decide))]

/-! ## What the calls do to the temporary files -/

theorem tempsAfter_make {command : Str} {guest : Option Nat} (h : verb vmid command = .make guest)
    (answer : Except Str ExecResult) :
    tempsAfter vmid temps command answer = made guest answer ++ temps := by
  unfold tempsAfter
  rw [h]

theorem tempsAfter_other {command : Str} (h : verb vmid command = .other)
    (answer : Except Str ExecResult) :
    tempsAfter vmid temps command answer = temps := by
  unfold tempsAfter
  rw [h]

theorem tempsAfter_rm {t : Temp} (h : verb vmid t.rm = .remove) (answer : Except Str ExecResult) :
    tempsAfter vmid (t :: temps) t.rm answer = temps := by
  unfold tempsAfter
  rw [h]
  exact List.eraseP_cons_of_pos (decide_eq_true rfl)

/-- A command that makes and removes nothing. -/
theorem ignores_exec {command : Str} (h : verb vmid command = .other) :
    (tempsMonitor vmid).Ignores False temps (transferTransport.exec command) := by
  refine meets_perform.mpr ⟨fun hremove => ?_, fun res => ?_, fun e => ?_⟩
  · rw [h] at hremove
    cases hremove
  · exact ⟨tempsAfter_other h _, nofun⟩
  · exact ⟨tempsAfter_other h _, nofun⟩

/-- A temporary file is there when its path is returned, and only then. -/
theorem meets_mkTemp {command : Str} {guest : Option Nat} (h : verb vmid command = .make guest)
    {failed : ExecResult → Str} {empty : Str} {post : List Temp → Outcome Str Str → Prop}
    (hthrown : ∀ e, post temps (.thrown e))
    (hmade : ∀ tmp, post (⟨guest, tmp⟩ :: temps) (.returned tmp)) :
    (tempsMonitor vmid).Meets post temps (do
      let res ← transferTransport.exec command
      if res.exitCode ≠ some 0 then throw (failed res)
      else if trim res.stdout = [] then throw empty
      else pure (trim res.stdout)) := by
  refine Monitor.meets_bind.mpr (meets_perform.mpr ⟨fun hremove => ?_, fun res => ?_, fun e => ?_⟩)
  · rw [h] at hremove
    cases hremove
  · show (tempsMonitor vmid).Meets post (tempsAfter vmid temps command (.ok res)) _
    rw [tempsAfter_make h, made_ok]
    refine Monitor.meets_ite.mpr ⟨fun hexit => ?_, fun hexit => Monitor.meets_ite.mpr
      ⟨fun hempty => ?_, fun hempty => ?_⟩⟩
    · rw [if_neg fun hboth => hexit hboth.1]
      exact hthrown _
    · rw [if_neg fun hboth => hboth.2 hempty]
      exact hthrown _
    · rw [if_pos ⟨not_not.mp hexit, hempty⟩]
      exact hmade _
  · show post (tempsAfter vmid temps command (.error e)) _
    rw [tempsAfter_make h]
    exact hthrown e

/-- The removal takes the newest temporary file off, also where `rm` fails. -/
theorem meets_rm {t : Temp} (h : verb vmid t.rm = .remove) :
    (tempsMonitor vmid).Meets (fun u o => u = temps ∧ o = .returned ()) (t :: temps)
      (tryCatch (do
        let _ ← transferTransport.exec t.rm
        pure ()) fun _ => pure ()) := by
  refine Monitor.meets_tryCatch.mpr (Monitor.meets_bind.mpr (meets_perform.mpr
    ⟨fun _ => ⟨t, List.mem_cons_self, rfl⟩, fun res => ?_, fun e => ?_⟩))
  · exact ⟨tempsAfter_rm h _, rfl⟩
  · exact ⟨tempsAfter_rm h _, rfl⟩

/-- However the body ends, the temporary file is gone after it. -/
theorem meets_tryFinally {α : Type} {t : Temp} {body : Tool TransferResult α}
    {cleanup : Tool TransferResult Unit}
    (hbody : (tempsMonitor vmid).Ignores False (t :: temps) body)
    (hcleanup : (tempsMonitor vmid).Meets (fun u o => u = temps ∧ o = .returned ()) (t :: temps)
      cleanup) :
    (tempsMonitor vmid).Meets (fun u o => u = temps ∧ (o = .unfinished → False)) (t :: temps)
      (tryFinally body cleanup) := by
  have hrest (outcome : Except Str α) : (tempsMonitor vmid).Meets
      (fun u o => u = temps ∧ (o = .unfinished → False)) (t :: temps)
      (cleanup >>= fun _ => orThrow outcome) := by
    refine Monitor.meets_bind.mpr (hcleanup.mono fun u o h => ?_)
    obtain ⟨rfl, rfl⟩ := h
    exact Monitor.ignores_orThrow outcome
  refine Monitor.meets_bind.mpr (Monitor.meets_tryCatch.mpr (Monitor.meets_bind.mpr
    (hbody.mono fun u o h => ?_)))
  -- What the body made it has removed, so `t` is the newest one again.
  obtain ⟨rfl, hended⟩ := h
  cases o with
  | returned a => exact hrest (.ok a)
  | thrown e => exact hrest (.error e)
  | unfinished => exact (hended rfl).elim

/-! ## The functions -/

theorem ignores_pullToTemp (path tmp : Str) : (tempsMonitor vmid).Ignores False
    (⟨none, tmp⟩ :: temps) (pullToTemp transferTransport vmid path tmp) := by
  have hpull : verb vmid (buildPctPullCommand vmid path tmp) = .other := verb_pct rfl rfl
  refine (ignores_exec hpull).bind fun res => Monitor.ignores_ite (Monitor.ignores_ite
    (Monitor.ignores_pure none) (Monitor.ignores_throw _)) ?_
  refine Monitor.Ignores.bind ?_ fun content => Monitor.ignores_pure (some content)
  exact meets_perform.mpr ⟨List.mem_cons_self, fun _ => ⟨rfl, nofun⟩, fun _ => ⟨rfl, nofun⟩⟩

theorem pullContainerFile_eq {m : Type → Type} [Monad m] [MonadExceptOf Str m]
    (transport : SshTransport m) (path tempDir : Str) :
    pullContainerFile transport vmid path tempDir = (do
      if ← containerFileExists transport vmid path then
        let tmp ← createNodeTemp transport tempDir
        tryFinally (pullToTemp transport vmid path tmp) (removeNodeTemp transport tmp)
      else pure none) := by
  unfold pullContainerFile tryFinally
  congr 1
  funext found
  congr 1
  congr 1
  funext tmp
  congr 1
  funext outcome
  congr 1
  funext _
  cases outcome <;> rfl

theorem ignores_pullContainerFile (path tempDir : Str) : (tempsMonitor vmid).Ignores False temps
    (pullContainerFile transferTransport vmid path tempDir) := by
  rw [pullContainerFile_eq]
  refine Monitor.Ignores.bind ((ignores_exec (verb_fileExists path)).bind fun res =>
    Monitor.ignores_pure _) fun found => Monitor.ignores_ite ?_ (Monitor.ignores_pure none)
  refine Monitor.meets_bind.mpr (meets_mkTemp (verb_mkTemp tempDir) (fun e => ⟨rfl, nofun⟩)
    fun tmp => ?_)
  exact meets_tryFinally (ignores_pullToTemp path tmp) (meets_rm (t := ⟨none, tmp⟩) (verb_rm tmp))

theorem ignores_pushContainerFile (path : Str) (content : Bytes) (perms : GuestPerms)
    (tempDir : Str) : (tempsMonitor vmid).Ignores False temps
      (pushContainerFile transferTransport vmid path content perms tempDir) := by
  refine Monitor.meets_bind.mpr (meets_mkTemp (verb_mkTemp tempDir) (fun e => ⟨rfl, nofun⟩)
    fun tmp => meets_tryFinally ?_ (meets_rm (t := ⟨none, tmp⟩) (verb_rm tmp)))
  have hpush : verb vmid (buildPctPushCommand vmid tmp path perms) = .other := verb_pct rfl rfl
  refine Monitor.Ignores.bind ?_ fun _ => (ignores_exec hpush).bind fun res =>
    Monitor.ignores_ite (Monitor.ignores_throw _) (Monitor.ignores_pure ())
  exact meets_perform.mpr ⟨List.mem_cons_self, fun _ => ⟨rfl, nofun⟩, fun _ => ⟨rfl, nofun⟩⟩

/-- A command of Docker in the guest, or the refusal of the container's name. -/
theorem ignores_docker {α : Type} {container rest : Str} {next : ExecResult → Tool TransferResult α}
    (hnext : ∀ res, (tempsMonitor vmid).Ignores False temps (next res)) :
    (tempsMonitor vmid).Ignores False temps (do
      let line ← dockerCommand container ("docker ".toList ++ rest)
      let res ← lxcExec transferTransport vmid line
      next res) := by
  unfold dockerCommand
  split
  · exact (ignores_exec (verb_lxcDocker rest)).bind hnext
  · exact Monitor.ignores_throw _

theorem ignores_copyOut (container path tempDir lxcTmp : Str) : (tempsMonitor vmid).Ignores False
    temps (copyOut transferTransport vmid container path tempDir lxcTmp) :=
  ignores_docker fun _ => Monitor.ignores_ite (Monitor.ignores_ite (Monitor.ignores_pure _)
    (Monitor.ignores_throw _)) ((ignores_pullContainerFile lxcTmp tempDir).bind fun _ =>
      Monitor.ignores_pure _)

theorem ignores_readDockerFile (container path : Str) (mounts : List Docker.DockerMount)
    (tempDir : Str) : (tempsMonitor vmid).Ignores False temps
      (readDockerFile transferTransport vmid container path mounts tempDir) := by
  unfold readDockerFile
  -- Through a bind mount there is no file of the guest in between.
  split
  · exact (ignores_pullContainerFile _ tempDir).bind fun _ => Monitor.ignores_pure _
  · refine Monitor.meets_bind.mpr (meets_mkTemp (verb_lxcMkTemp tempDir) (fun e => ⟨rfl, nofun⟩)
      fun lxcTmp => ?_)
    exact meets_tryFinally (ignores_copyOut container path tempDir lxcTmp)
      (meets_rm (t := ⟨some vmid, lxcTmp⟩) (verb_lxcRm lxcTmp))

theorem ignores_restorePerms (container path : Str) (perms : Option GuestPerms) :
    (tempsMonitor vmid).Ignores False temps
      (restorePerms transferTransport vmid container path perms) := by
  cases perms with
  | none => exact Monitor.ignores_pure _
  | some perms =>
    exact ignores_docker fun chown => ignores_docker fun chmod =>
      Monitor.ignores_ite (Monitor.ignores_pure _) (Monitor.ignores_pure _)

theorem ignores_copyIn (container path : Str) (content : Bytes) (prevPerms : Option GuestPerms)
    (tempDir lxcTmp : Str) : (tempsMonitor vmid).Ignores False temps
      (copyIn transferTransport vmid container path content prevPerms tempDir lxcTmp) :=
  (ignores_pushContainerFile lxcTmp content _ tempDir).bind fun _ => ignores_docker fun _ =>
    Monitor.ignores_ite (Monitor.ignores_throw _) ((ignores_restorePerms container path
      prevPerms).bind fun _ => Monitor.ignores_pure _)

theorem ignores_writeDockerFile (container path : Str) (content : Bytes)
    (mounts : List Docker.DockerMount) (prevPerms : Option GuestPerms)
    (newFileDefaults : GuestPerms) (tempDir : Str) : (tempsMonitor vmid).Ignores False temps
      (writeDockerFile transferTransport vmid container path content mounts prevPerms
        newFileDefaults tempDir) := by
  unfold writeDockerFile
  split
  · refine Monitor.Ignores.bind ((ignores_exec (verb_stat _)).bind fun res =>
      Monitor.ignores_pure _) fun perms => ?_
    exact (ignores_pushContainerFile _ content _ tempDir).bind fun _ => Monitor.ignores_pure _
  · refine Monitor.meets_bind.mpr (meets_mkTemp (verb_lxcMkTemp tempDir) (fun e => ⟨rfl, nofun⟩)
      fun lxcTmp => ?_)
    exact meets_tryFinally (ignores_copyIn container path content prevPerms tempDir lxcTmp)
      (meets_rm (t := ⟨some vmid, lxcTmp⟩) (verb_lxcRm lxcTmp))

theorem ignores_transfer (tempDir : Str) (transfer : Transfer) :
    (tempsMonitor vmid).Ignores False temps (transfer.program vmid tempDir) := by
  cases transfer with
  | pull path =>
    exact (ignores_pullContainerFile path tempDir).bind fun _ => Monitor.ignores_pure ()
  | push path content perms => exact ignores_pushContainerFile path content perms tempDir
  | readDocker container path mounts =>
    exact (ignores_readDockerFile container path mounts tempDir).bind fun _ =>
      Monitor.ignores_pure ()
  | writeDocker container path content mounts prevPerms newFileDefaults =>
    exact (ignores_writeDockerFile container path content mounts prevPerms newFileDefaults
      tempDir).bind fun _ => Monitor.ignores_pure ()

end

/-- Whatever the transport answers, the calls of a transfer keep to the rules of the monitor,
and at its end, also by an error, no temporary file is left that `rm` was not told of. -/
theorem temps_removed (vmid : Nat) (tempDir : Str) (transfer : Transfer)
    (w : Nat → (c : ToolCall TransferCall) → ToolAnswer TransferResult c) :
    (tempsMonitor vmid).Allows [] (run w 0 (transfer.program vmid tempDir)).1 ∧
      (tempsMonitor vmid).after [] (run w 0 (transfer.program vmid tempDir)).1 = [] := by
  obtain ⟨hallows, htemps, -⟩ := (@ignores_transfer vmid [] tempDir transfer).run w 0
  exact ⟨hallows, htemps⟩

end HomelabMcp.Tools
