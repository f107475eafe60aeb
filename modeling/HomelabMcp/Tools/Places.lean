import HomelabMcp.Backup.TargetKeys
import HomelabMcp.Tools.Quoting

/-!
# Where a command line runs (command.ts, pctHelpers.ts, qmHelpers.ts, dockerHelpers.ts)

A line that the node is given may be there only to get a command to another place: into a
guest, a VM or a container, through one shell after the other. `Runs p line q command`:
running the line at `p` comes down to running the command at `q`, and to nothing else.

- `runs_buildTimeoutWrapper`, `runs_buildPctExecCommand`, `runs_buildQmGuestExecCommand`,
  `runs_buildDockerExecCommand`: each builder gets its command where it says, unchanged.
- `Runs.trans`: one place after the other.
-/

namespace HomelabMcp.Tools

open SlashPath Text Shell Quoting Backup

/-- A place where a shell runs. -/
inductive ShellPlace
  | node
  | guest (vmid : Nat)
  /-- A VM, through its agent. -/
  | vm (vmid : Nat)
  /-- A Docker container of a guest. -/
  | container (vmid : Nat) (name : Str)
  deriving DecidableEq

/-! ## The builders -/

/-- command.ts:56, of whole milliseconds. -/
def timeoutMsToSecs (timeoutMs : Int) : Nat :=
  max 1 ((timeoutMs + 999) / 1000).toNat

/-- `<shell> -c '<escaped-cmd>'`. -/
def shellCommand (shell : WrapperShell) (cmd : Str) : Str :=
  shell.text ++ " -c ".toList ++ shSingleQuote cmd

/-- pctHelpers.ts:38. -/
structure PctExecCommandOptions where
  shell : Option WrapperShell := none
  timeoutSecs : Option Nat := none

/-- pctHelpers.ts:58. -/
def buildPctExecCommand (vmid : Nat) (cmd : Str) (opts : PctExecCommandOptions) : Str :=
  let shell := opts.shell.getD .bash
  let inner := match opts.timeoutSecs with
    | some secs => buildTimeoutWrapper cmd secs ⟨some shell, none⟩
    | none => shellCommand shell cmd
  "pct exec ".toList ++ numeral vmid ++ " -- ".toList ++ inner

/-- qmHelpers.ts:31. -/
def buildQmAgentPingCommand (vmid : Nat) : Str :=
  "qm agent ".toList ++ numeral vmid ++ " ping".toList

/-- qmHelpers.ts:35. -/
structure QmGuestExecOptions where
  shell : Option WrapperShell := none
  timeoutSecs : Option Nat := none

/-- qmHelpers.ts:55. -/
def buildQmGuestExecCommand (vmid : Nat) (cmd : Str) (opts : QmGuestExecOptions) : Str :=
  let shell := opts.shell.getD .sh
  let timeout := match opts.timeoutSecs with
    | some secs => "--timeout ".toList ++ numeral secs ++ [' ']
    | none => []
  "qm guest exec ".toList ++ numeral vmid ++ [' '] ++ timeout ++ "-- ".toList ++
    shellCommand shell cmd

/-- dockerHelpers.ts:256. -/
def buildInContainerTimeout (command : Str) (secs : Nat) (shell : WrapperShell) : Str :=
  let c := shSingleQuote command
  "if command -v timeout >/dev/null 2>&1; then ".toList ++
    "exec timeout -s TERM -k 5 ".toList ++ numeral secs ++ [' '] ++ shell.text ++
      " -c ".toList ++ c ++ "; ".toList ++
    "else exec ".toList ++ shell.text ++ " -c ".toList ++ c ++ "; fi".toList

/-- dockerHelpers.ts:229. -/
structure DockerExecOptions where
  shell : Option WrapperShell := none
  timeoutSecs : Option Nat := none

/-- dockerHelpers.ts:274, of a name that passes its `assertDockerName`. -/
def buildDockerExecCommand (container command : Str) (opts : DockerExecOptions) : Str :=
  let shell := opts.shell.getD .sh
  let inner := match opts.timeoutSecs with
    | some secs => shellCommand shell (buildInContainerTimeout command secs shell)
    | none => shellCommand shell command
  "docker exec ".toList ++ shSingleQuote container ++ [' '] ++ inner

/-! ## What a line comes down to -/

/-- The words that put a `timeout` before a command: the long options, and the short ones that
every `timeout` knows. -/
inductive IsTimeout : List Str → Prop
  | long (killAfter secs : Nat) :
    IsTimeout ["timeout".toList, "--signal=TERM".toList,
      "--kill-after=".toList ++ numeral killAfter, numeral secs]
  | short (secs : Nat) :
    IsTimeout ["timeout".toList, "-s".toList, "TERM".toList, "-k".toList, ['5'], numeral secs]

/-- The words that put a command into another place. -/
inductive Enters : ShellPlace → List Str → ShellPlace → Prop
  | pct (vmid : Nat) :
    Enters .node ["pct".toList, "exec".toList, numeral vmid, "--".toList] (.guest vmid)
  | qm (vmid : Nat) :
    Enters .node ["qm".toList, "guest".toList, "exec".toList, numeral vmid, "--".toList] (.vm vmid)
  | qmTimeout (vmid secs : Nat) :
    Enters .node ["qm".toList, "guest".toList, "exec".toList, numeral vmid, "--timeout".toList,
      numeral secs, "--".toList] (.vm vmid)
  /-- A name that is no option. -/
  | docker (vmid : Nat) {name : Str} (h : name.head? ≠ some '-') :
    Enters (.guest vmid) ["docker".toList, "exec".toList, name] (.container vmid name)

/-- What a command with these words comes down to: a script for a shell at some place. -/
inductive Invokes : ShellPlace → List Str → ShellPlace → Str → Prop
  | shell {p : ShellPlace} (shell : WrapperShell) (script : Str) :
    Invokes p [shell.text, "-c".toList, script] p script
  | timeout {p q : ShellPlace} {front argv : List Str} {script : Str} :
    IsTimeout front → Invokes p argv q script → Invokes p (front ++ argv) q script
  | enter {p q r : ShellPlace} {front argv : List Str} {script : Str} :
    Enters p front q → Invokes q argv r script → Invokes p (front ++ argv) r script

/-- The tokens of `if command -v timeout >/dev/null 2>&1; then exec …; else exec …; fi`. -/
def probedTokens (found missing : List Str) : List Token :=
  [.word "if".toList, .word "command".toList, .word "-v".toList, .word "timeout".toList,
      .operator '>', .word "/dev/null".toList, .word ['2'], .operator '>', .operator '&',
      .word ['1'], .operator ';', .word "then".toList, .word "exec".toList] ++
    found.map .word ++ [.operator ';', .word "else".toList, .word "exec".toList] ++
    missing.map .word ++ [.operator ';', .word "fi".toList]

/-- Running the line at `p` comes down to running the command at `q`. -/
inductive Runs : ShellPlace → Str → ShellPlace → Str → Prop
  | here (p : ShellPlace) (command : Str) : Runs p command p command
  | simple {p q r : ShellPlace} {line script command : Str} {argv : List Str} :
    tokenize line = argv.map .word → Invokes p argv q script → Runs q script r command →
    Runs p line r command
  /-- Whether there is a `timeout` or not, it is the same script. -/
  | probed {p q r : ShellPlace} {line script command : Str} {found missing : List Str} :
    tokenize line = probedTokens found missing → Invokes p found q script →
    Invokes p missing q script → Runs q script r command → Runs p line r command

theorem Runs.trans {p q r : ShellPlace} {line script command : Str} (h : Runs p line q script)
    (hrest : Runs q script r command) : Runs p line r command := by
  induction h with
  | here p script => exact hrest
  | simple htokens hargv _ ih => exact .simple htokens hargv (ih hrest)
  | probed htokens hfound hmissing _ ih => exact .probed htokens hfound hmissing (ih hrest)

/-! ## The builders get their command there -/

theorem spaced_append (v w : List Str) : spaced (v ++ w) = spaced v ++ spaced w :=
  List.flatMap_append

theorem spaced_nil : spaced [] = [] := rfl

theorem spaced_cons (w : Str) (ws : List Str) : spaced (w :: ws) = w ++ ' ' :: spaced ws := by
  rw [spaced, List.flatMap_cons, List.append_assoc]
  rfl

theorem shellCommand_eq (shell : WrapperShell) (cmd : Str) :
    shellCommand shell cmd = spaced [shell.text, "-c".toList] ++ quoted cmd := by
  have hflag : " -c ".toList = ' ' :: spaced ["-c".toList] := by decide
  rw [spaced_cons, ← hflag]
  rfl

theorem buildTimeoutWrapper_eq (command : Str) (secs : Nat) (opts : TimeoutWrapperOptions) :
    buildTimeoutWrapper command secs opts = spaced (timeoutWords secs opts) ++ quoted command := by
  have hfront : "timeout --signal=TERM --kill-after=".toList =
      "timeout".toList ++ ' ' :: ("--signal=TERM".toList ++ ' ' :: "--kill-after=".toList) := by
    decide
  have hback : " -c ".toList = ' ' :: ("-c".toList ++ [' ']) := by decide
  exact (congrArg₂ (fun front back => front ++ numeral (opts.killAfterSecs.getD 5) ++
    ' ' :: numeral secs ++ ' ' :: (opts.shell.getD .bash).text ++ back ++ quoted command)
    hfront hback).trans (spaced_timeout _ _ _ _ _ _ _ _)

section
variable {p q : ShellPlace} {ws : List Str} {script command : Str}

theorem runs_spaced_quoted (hws : ∀ w ∈ ws, IsWord w) (hscript : nul ∉ script)
    (hargv : Invokes p (ws ++ [script]) q script) : Runs p (spaced ws ++ quoted script) q script :=
  .simple (tokenize_spaced_quoted hws hscript) hargv (.here q script)

theorem invokes_timeoutWords (p : ShellPlace) (secs : Nat) (opts : TimeoutWrapperOptions)
    (script : Str) : Invokes p (timeoutWords secs opts ++ [script]) p script := by
  have h := Invokes.timeout (.long (opts.killAfterSecs.getD 5) secs)
    (.shell (p := p) (opts.shell.getD .bash) script)
  exact h

theorem isWord_shellWords (shell : WrapperShell) :
    ∀ w ∈ [shell.text, "-c".toList], IsWord w :=
  List.forall_mem_cons.mpr ⟨isWord_shell shell,
    List.forall_mem_singleton.mpr (isWord_of_all (by decide) (by decide))⟩

theorem runs_buildTimeoutWrapper (p : ShellPlace) (secs : Nat) (opts : TimeoutWrapperOptions)
    (h : nul ∉ command) : Runs p (buildTimeoutWrapper command secs opts) p command := by
  rw [buildTimeoutWrapper_eq]
  exact runs_spaced_quoted (isWord_timeoutWords secs opts) h
    (invokes_timeoutWords p secs opts command)

theorem isWord_pctFront (vmid : Nat) :
    ∀ w ∈ ["pct".toList, "exec".toList, numeral vmid, "--".toList], IsWord w := fun w hw =>
  isWord_pctWords vmid w (List.mem_append_left ["sh".toList, "-c".toList] hw)

/-- A command in front of which stand the words that enter another place. -/
theorem runs_entered {front inner : List Str} (hfront : ∀ w ∈ front, IsWord w)
    (hinner : ∀ w ∈ inner, IsWord w) (h : nul ∉ command) (henters : Enters p front q)
    (hargv : Invokes q (inner ++ [command]) q command) :
    Runs p (spaced front ++ (spaced inner ++ quoted command)) q command := by
  rw [← List.append_assoc, ← spaced_append]
  refine .simple (tokenize_spaced_quoted (fun w hw => ?_) h) ?_ (.here q command)
  · exact (List.mem_append.mp hw).elim (hfront w) (hinner w)
  · rw [List.append_assoc]
    exact .enter henters hargv

theorem runs_buildPctExecCommand (vmid : Nat) (opts : PctExecCommandOptions) (h : nul ∉ command) :
    Runs .node (buildPctExecCommand vmid command opts) (.guest vmid) command := by
  have hfront : "pct exec ".toList = spaced ["pct".toList, "exec".toList] := by decide
  have hback : " -- ".toList = ' ' :: spaced ["--".toList] := by decide
  have hline (inner : Str) : "pct exec ".toList ++ numeral vmid ++ " -- ".toList ++ inner =
      spaced ["pct".toList, "exec".toList, numeral vmid, "--".toList] ++ inner := by
    rw [hfront, hback]
    simp only [spaced_cons, spaced_nil, List.append_assoc, List.cons_append,
      List.nil_append]
  unfold buildPctExecCommand
  rw [hline]
  cases opts.timeoutSecs with
  | some secs =>
    show Runs .node (_ ++ buildTimeoutWrapper command secs _) _ _
    rw [buildTimeoutWrapper_eq]
    exact runs_entered (isWord_pctFront vmid) (isWord_timeoutWords secs _) h (.pct vmid)
      (invokes_timeoutWords _ secs _ command)
  | none =>
    show Runs .node (_ ++ shellCommand (opts.shell.getD .bash) command) _ _
    rw [shellCommand_eq]
    exact runs_entered (isWord_pctFront vmid) (isWord_shellWords _) h (.pct vmid)
      (.shell _ command)

theorem runs_buildQmGuestExecCommand (vmid : Nat) (opts : QmGuestExecOptions)
    (h : nul ∉ command) :
    Runs .node (buildQmGuestExecCommand vmid command opts) (.vm vmid) command := by
  have hfront : "qm guest exec ".toList =
      spaced ["qm".toList, "guest".toList, "exec".toList] := by decide
  have hopt : "--timeout ".toList = spaced ["--timeout".toList] := by decide
  have hback : "-- ".toList = spaced ["--".toList] := by decide
  unfold buildQmGuestExecCommand
  cases opts.timeoutSecs with
  | some secs =>
    have hline : "qm guest exec ".toList ++ numeral vmid ++ [' '] ++
        ("--timeout ".toList ++ numeral secs ++ [' ']) ++ "-- ".toList =
          spaced ["qm".toList, "guest".toList, "exec".toList, numeral vmid, "--timeout".toList,
            numeral secs, "--".toList] := by
      rw [hfront, hopt, hback]
      simp only [spaced_cons, spaced_nil, List.append_assoc, List.cons_append,
        List.nil_append]
    show Runs .node (_ ++ shellCommand (opts.shell.getD .sh) command) _ _
    rw [hline, shellCommand_eq]
    refine runs_entered ?_ (isWord_shellWords _) h (.qmTimeout vmid secs) (.shell _ command)
    simp only [List.forall_mem_cons]
    exact ⟨isWord_of_all (by decide) (by decide), isWord_of_all (by decide) (by decide),
      isWord_of_all (by decide) (by decide), isWord_numeral vmid,
      isWord_of_all (by decide) (by decide), isWord_numeral secs,
      isWord_of_all (by decide) (by decide), fun _ h => absurd h List.not_mem_nil⟩
  | none =>
    have hline : "qm guest exec ".toList ++ numeral vmid ++ [' '] ++ [] ++ "-- ".toList =
          spaced ["qm".toList, "guest".toList, "exec".toList, numeral vmid, "--".toList] := by
      rw [hfront, hback]
      simp only [spaced_cons, spaced_nil, List.append_assoc, List.cons_append,
        List.nil_append]
    show Runs .node (_ ++ shellCommand (opts.shell.getD .sh) command) _ _
    rw [hline, shellCommand_eq]
    refine runs_entered ?_ (isWord_shellWords _) h (.qm vmid) (.shell _ command)
    simp only [List.forall_mem_cons]
    exact ⟨isWord_of_all (by decide) (by decide), isWord_of_all (by decide) (by decide),
      isWord_of_all (by decide) (by decide), isWord_numeral vmid,
      isWord_of_all (by decide) (by decide), fun _ h => absurd h List.not_mem_nil⟩

/-! ## Into a container -/

theorem head_of_validateDockerName {name : Str} (h : validateDockerName name = true) :
    name.head? ≠ some '-' := by
  cases name with
  | nil => cases h
  | cons c rest =>
    rintro hc
    cases hc
    rw [validateDockerName, Bool.and_eq_true] at h
    exact absurd h.1 (by decide)

set_option maxRecDepth 20000 in
/-- What the script finds out before it runs anything. -/
theorem scan_probe (s : Str) : scan .bare none (">/dev/null 2>&1; then ".toList ++ s) =
    [.operator '>', .word "/dev/null".toList, .word ['2'], .operator '>', .operator '&',
      .word ['1'], .operator ';', .word "then".toList] ++ scan .bare none s := rfl

theorem scan_else (c s : Str) : scan .bare (some c) ("; else ".toList ++ s) =
    [.word c, .operator ';', .word "else".toList] ++ scan .bare none s := rfl

theorem scan_fi (c : Str) : scan .bare (some c) "; fi".toList =
    [.word c, .operator ';', .word "fi".toList] := rfl

theorem isWord_probe :
    ∀ w ∈ ["if".toList, "command".toList, "-v".toList, "timeout".toList], IsWord w := by
  simp only [List.forall_mem_cons]
  exact ⟨isWord_of_all (by decide) (by decide), isWord_of_all (by decide) (by decide),
    isWord_of_all (by decide) (by decide), isWord_of_all (by decide) (by decide),
    fun _ h => absurd h List.not_mem_nil⟩

/-- The words before the command, where there is a `timeout`. -/
def foundWords (secs : Nat) (shell : WrapperShell) : List Str :=
  ["exec".toList, "timeout".toList, "-s".toList, "TERM".toList, "-k".toList, ['5'], numeral secs,
    shell.text, "-c".toList]

def missingWords (shell : WrapperShell) : List Str :=
  ["exec".toList, shell.text, "-c".toList]

theorem isWord_missingWords (shell : WrapperShell) : ∀ w ∈ missingWords shell, IsWord w :=
  List.forall_mem_cons.mpr ⟨isWord_of_all (by decide) (by decide), isWord_shellWords shell⟩

theorem isWord_foundWords (secs : Nat) (shell : WrapperShell) :
    ∀ w ∈ foundWords secs shell, IsWord w := by
  simp only [foundWords, List.forall_mem_cons]
  exact ⟨isWord_of_all (by decide) (by decide), isWord_of_all (by decide) (by decide),
    isWord_of_all (by decide) (by decide), isWord_of_all (by decide) (by decide),
    isWord_of_all (by decide) (by decide), isWord_of_all (by decide) (by decide),
    isWord_numeral secs, isWord_shell shell, isWord_of_all (by decide) (by decide),
    fun _ h => absurd h List.not_mem_nil⟩

theorem probed_line {p f g s e redir rest : Str} {ws fs es : List Str} {flag : Str} (n sh c t : Str)
    (hp : p = spaced ws ++ redir) (hf : f = spaced fs) (hg : g = ' ' :: spaced [flag])
    (he : s ++ e = rest ++ spaced es) :
    p ++ f ++ n ++ [' '] ++ sh ++ g ++ c ++ s ++ e ++ sh ++ g ++ c ++ t =
      spaced ws ++ (redir ++ (spaced (fs ++ [n, sh, flag]) ++ (c ++
        (rest ++ (spaced (es ++ [sh, flag]) ++ (c ++ t)))))) := by
  subst hp hf hg
  rw [List.append_assoc _ s e, he]
  simp only [spaced_append, spaced_cons, spaced_nil, List.append_assoc, List.cons_append,
    List.nil_append]

theorem buildInContainerTimeout_eq (command : Str) (secs : Nat) (shell : WrapperShell) :
    buildInContainerTimeout command secs shell =
      spaced ["if".toList, "command".toList, "-v".toList, "timeout".toList] ++
        (">/dev/null 2>&1; then ".toList ++ (spaced (foundWords secs shell) ++ (quoted command ++
          ("; else ".toList ++ (spaced (missingWords shell) ++ (quoted command ++
            "; fi".toList)))))) := by
  have hprobe : "if command -v timeout >/dev/null 2>&1; then ".toList =
      spaced ["if".toList, "command".toList, "-v".toList, "timeout".toList] ++
        ">/dev/null 2>&1; then ".toList := by decide
  have hfound : "exec timeout -s TERM -k 5 ".toList = spaced ["exec".toList, "timeout".toList,
      "-s".toList, "TERM".toList, "-k".toList, ['5']] := by decide
  have hflag : " -c ".toList = ' ' :: spaced ["-c".toList] := by decide
  have helse : "; ".toList ++ "else exec ".toList =
      "; else ".toList ++ spaced ["exec".toList] := by decide
  have hline := probed_line (numeral secs) shell.text (quoted command) "; fi".toList hprobe hfound
    hflag helse
  exact hline

theorem nul_notMem_buildInContainerTimeout {secs : Nat} {shell : WrapperShell}
    (h : nul ∉ command) : nul ∉ buildInContainerTimeout command secs shell := by
  rw [buildInContainerTimeout_eq]
  simp only [List.mem_append, not_or]
  exact ⟨nul_notMem_spaced isWord_probe, by decide,
    nul_notMem_spaced (isWord_foundWords secs shell), nul_notMem_quoted h, by decide,
    nul_notMem_spaced (isWord_missingWords shell),
    nul_notMem_quoted h, by decide⟩

theorem tokenize_buildInContainerTimeout (secs : Nat) (shell : WrapperShell) (h : nul ∉ command) :
    tokenize (buildInContainerTimeout command secs shell) =
      probedTokens
        (["timeout".toList, "-s".toList, "TERM".toList, "-k".toList, ['5'], numeral secs] ++
          [shell.text, "-c".toList, command])
        [shell.text, "-c".toList, command] := by
  rw [tokenize_eq_scan (nul_notMem_buildInContainerTimeout h), buildInContainerTimeout_eq,
    scan_spaced isWord_probe, scan_probe, scan_spaced (isWord_foundWords secs shell), scan_quoted,
    scan_else, scan_spaced (isWord_missingWords shell), scan_quoted, scan_fi]
  rfl

/-- The script that looks for a `timeout` first. -/
theorem runs_buildInContainerTimeout (p : ShellPlace) (secs : Nat) (shell : WrapperShell)
    (h : nul ∉ command) : Runs p (buildInContainerTimeout command secs shell) p command :=
  .probed (tokenize_buildInContainerTimeout secs shell h)
    (.timeout (.short secs) (.shell shell command)) (.shell shell command) (.here p command)

/-- `docker exec` of a container that has a name, and a shell there. -/
theorem runs_dockerExec (vmid : Nat) {name script : Str} (shell : WrapperShell)
    (hname : validateDockerName name = true) (hnul : nul ∉ name) (h : nul ∉ script) :
    Runs (.guest vmid) ("docker exec ".toList ++ shSingleQuote name ++ [' '] ++
      shellCommand shell script) (.container vmid name) script := by
  have hfront : "docker exec ".toList = spaced ["docker".toList, "exec".toList] := by decide
  have hwords : ∀ w ∈ ["docker".toList, "exec".toList], IsWord w :=
    List.forall_mem_cons.mpr ⟨isWord_of_all (by decide) (by decide),
      List.forall_mem_singleton.mpr (isWord_of_all (by decide) (by decide))⟩
  have hline : "docker exec ".toList ++ shSingleQuote name ++ [' '] ++ shellCommand shell script =
      spaced ["docker".toList, "exec".toList] ++ (quoted name ++ (' ' ::
        (spaced [shell.text, "-c".toList] ++ quoted script))) := by
    rw [hfront, shellCommand_eq, shSingleQuote]
    simp only [List.append_assoc, List.cons_append, List.nil_append]
  have hlast := scan_quoted script []
  rw [List.append_nil] at hlast
  have htokens : tokenize ("docker exec ".toList ++ shSingleQuote name ++ [' '] ++
      shellCommand shell script) = (["docker".toList, "exec".toList, name] ++
        [shell.text, "-c".toList, script]).map .word := by
    rw [hline, tokenize_eq_scan, scan_spaced hwords, scan_quoted, scan_blank,
      scan_spaced (isWord_shellWords shell), hlast]
    · rfl
    · simp only [List.mem_append, List.mem_cons, not_or]
      exact ⟨nul_notMem_spaced hwords, nul_notMem_quoted hnul, by decide,
        nul_notMem_spaced (isWord_shellWords shell), nul_notMem_quoted h⟩
  exact .simple htokens (.enter (.docker vmid (head_of_validateDockerName hname))
    (.shell shell script)) (.here _ script)

theorem runs_buildDockerExecCommand (vmid : Nat) {name : Str} (opts : DockerExecOptions)
    (hname : validateDockerName name = true) (hnul : nul ∉ name) (h : nul ∉ command) :
    Runs (.guest vmid) (buildDockerExecCommand name command opts) (.container vmid name)
      command := by
  unfold buildDockerExecCommand
  cases opts.timeoutSecs with
  | some secs =>
    exact (runs_dockerExec vmid (opts.shell.getD .sh) hname hnul
      (nul_notMem_buildInContainerTimeout h)).trans (runs_buildInContainerTimeout _ secs _ h)
  | none => exact runs_dockerExec vmid (opts.shell.getD .sh) hname hnul h

/-! ## A line without a NUL -/

theorem nul_notMem_shellCommand {shell : WrapperShell} (h : nul ∉ command) :
    nul ∉ shellCommand shell command := by
  rw [shellCommand_eq, List.mem_append, not_or]
  exact ⟨nul_notMem_spaced (isWord_shellWords shell), nul_notMem_quoted h⟩

theorem nul_notMem_buildTimeoutWrapper {secs : Nat} {opts : TimeoutWrapperOptions}
    (h : nul ∉ command) : nul ∉ buildTimeoutWrapper command secs opts := by
  rw [buildTimeoutWrapper_eq, List.mem_append, not_or]
  exact ⟨nul_notMem_spaced (isWord_timeoutWords secs opts), nul_notMem_quoted h⟩

theorem nul_notMem_buildPctExecCommand {vmid : Nat} {opts : PctExecCommandOptions}
    (h : nul ∉ command) : nul ∉ buildPctExecCommand vmid command opts := by
  unfold buildPctExecCommand
  simp only [List.mem_append, not_or]
  refine ⟨⟨⟨by decide, nul_notMem_numeral vmid⟩, by decide⟩, ?_⟩
  cases opts.timeoutSecs with
  | some secs => exact nul_notMem_buildTimeoutWrapper h
  | none => exact nul_notMem_shellCommand h

theorem nul_notMem_buildQmGuestExecCommand {vmid : Nat} {opts : QmGuestExecOptions}
    (h : nul ∉ command) : nul ∉ buildQmGuestExecCommand vmid command opts := by
  unfold buildQmGuestExecCommand
  simp only [List.mem_append, not_or]
  refine ⟨⟨⟨⟨⟨by decide, nul_notMem_numeral vmid⟩, by decide⟩, ?_⟩, by decide⟩,
    nul_notMem_shellCommand h⟩
  cases opts.timeoutSecs with
  | some secs =>
    simp only [List.mem_append, not_or]
    exact ⟨⟨by decide, nul_notMem_numeral secs⟩, by decide⟩
  | none => exact List.not_mem_nil

theorem nul_notMem_buildDockerExecCommand {name : Str} {opts : DockerExecOptions}
    (hname : nul ∉ name) (h : nul ∉ command) : nul ∉ buildDockerExecCommand name command opts := by
  unfold buildDockerExecCommand
  simp only [List.mem_append, not_or]
  refine ⟨⟨⟨by decide, nul_notMem_quoted hname⟩, by decide⟩, ?_⟩
  cases opts.timeoutSecs with
  | some secs => exact nul_notMem_shellCommand (nul_notMem_buildInContainerTimeout h)
  | none => exact nul_notMem_shellCommand h

theorem nul_notMem_of_validateDockerName {name : Str} (h : validateDockerName name = true) :
    nul ∉ name := by
  cases name with
  | nil => cases h
  | cons c rest =>
    rw [validateDockerName, Bool.and_eq_true, List.all_eq_true] at h
    intro hmem
    rcases List.mem_cons.mp hmem with rfl | hmem
    · exact absurd h.1 (by decide)
    · exact absurd (h.2 nul hmem) (by decide)

end

end HomelabMcp.Tools
