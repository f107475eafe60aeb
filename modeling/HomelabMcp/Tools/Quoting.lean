import HomelabMcp.Lib.Shell

/-!
# Quoting through two shells (command.ts, pctFiles.ts, forest.ts, configSweep.ts)

Paths are quoted into a script, the script is quoted into a `pct exec`, and that
into the `timeout` wrapper of the transport. Each shell on the way takes one layer
of quotes off.

- `tokenize_spaced_quoted`: a line of plain words and one quoted string.
- `quoting_survives_nesting`: each layer gives back what was put into it.
-/

namespace HomelabMcp.Quoting

open SlashPath Text Shell

/-- command.ts:14. -/
def shSingleQuote (s : Str) : Str :=
  quoted s

/-- pctFiles.ts:21, the same. -/
def shQuote (s : Str) : Str :=
  quoted s

inductive WrapperShell
  | bash
  | sh
  deriving DecidableEq, Repr

def WrapperShell.text : WrapperShell → Str
  | .bash => "bash".toList
  | .sh => "sh".toList

/-- command.ts:20. -/
structure TimeoutWrapperOptions where
  shell : Option WrapperShell
  killAfterSecs : Option Nat

/-- command.ts:40. -/
def buildTimeoutWrapper (command : Str) (secs : Nat) (opts : TimeoutWrapperOptions) : Str :=
  let shell := opts.shell.getD .bash
  let killAfter := opts.killAfterSecs.getD 5
  "timeout --signal=TERM --kill-after=".toList ++ numeral killAfter ++ ' ' :: numeral secs ++
    ' ' :: shell.text ++ " -c ".toList ++ shSingleQuote command

/-- A script of a container, run in the guest, or of the node itself. -/
def inGuest (inner : Str) (vmid : Option Nat) : Str :=
  match vmid with
  | none => inner
  | some vmid => "pct exec ".toList ++ numeral vmid ++ " -- sh -c ".toList ++ shQuote inner

/-- forest.ts:111. -/
def buildForestEnumCommand (watchPaths : List Str) (vmid : Option Nat) : Str :=
  let paths := joinWords (watchPaths.map shQuote)
  inGuest ("find ".toList ++ paths ++ " -printf '%y\\t%T@\\t%p\\n' 2>/dev/null".toList) vmid

/-- configSweep.ts:78. -/
def buildFindEnumCommand (watchPaths : List Str) (vmid : Option Nat) : Str :=
  let paths := joinWords (watchPaths.map shQuote)
  inGuest ("find ".toList ++ paths ++ " -type f -printf '%s\\t%p\\n' 2>/dev/null".toList) vmid

/-- configSweep.ts:85. -/
def buildSha256Command (paths : List Str) (vmid : Option Nat) : Option Str :=
  if paths = [] then none
  else some (inGuest ("sha256sum -- ".toList ++ joinWords (paths.map shQuote)) vmid)

example : buildSha256Command ["/etc/it's".toList] (some 101) =
    some "pct exec 101 -- sh -c 'sha256sum -- '\\''/etc/it'\\''\\'\\'''\\''s'\\'''".toList := by
  decide +kernel

/-! ## One layer -/

theorem isWord_of_all {w : Str} (hne : w ≠ [])
    (h : w.all (fun c => isOrdinary c && c != '$' && c != '#') = true) : IsWord w := by
  rw [List.all_eq_true] at h
  have hchar : ∀ c ∈ w, isOrdinary c = true ∧ c ≠ '$' ∧ c ≠ '#' := fun c hc => by
    simpa [and_assoc] using h c hc
  exact ⟨hne, fun c hc => (hchar c hc).1, fun hc => (hchar _ hc).2.1 rfl,
    fun hc => (hchar _ hc).2.2 rfl⟩

theorem isWord_append {v w : Str} (hv : IsWord v) (hw : IsWord w) : IsWord (v ++ w) where
  nonempty := fun h => hv.nonempty (List.append_eq_nil_iff.mp h).1
  ordinary := fun c hc => (List.mem_append.mp hc).elim (hv.ordinary c) (hw.ordinary c)
  noDollar := fun h => (List.mem_append.mp h).elim hv.noDollar hw.noDollar
  noComment := fun h => (List.mem_append.mp h).elim hv.noComment hw.noComment

/-- Plain words, and a quoted string at the end of the line. -/
theorem tokenize_spaced_quoted {ws : List Str} (hws : ∀ w ∈ ws, IsWord w) {s : Str}
    (hs : nul ∉ s) : tokenize (spaced ws ++ quoted s) = (ws ++ [s]).map .word := by
  have hnul : nul ∉ spaced ws ++ quoted s := by
    rw [List.mem_append]
    rintro (h | h)
    · exact nul_notMem_spaced hws h
    · exact nul_notMem_quoted hs h
  have hlast := scan_quoted s []
  rw [List.append_nil] at hlast
  rw [tokenize_eq_scan hnul, scan_spaced hws, hlast, List.map_append]
  rfl

/-- The words in front of the script of a `pct exec`. -/
def pctWords (vmid : Nat) : List Str :=
  ["pct".toList, "exec".toList, numeral vmid, "--".toList, "sh".toList, "-c".toList]

/-- The words in front of the command of a `timeout`. -/
def timeoutWords (secs : Nat) (opts : TimeoutWrapperOptions) : List Str :=
  ["timeout".toList, "--signal=TERM".toList,
    "--kill-after=".toList ++ numeral (opts.killAfterSecs.getD 5), numeral secs,
    (opts.shell.getD .bash).text, "-c".toList]

theorem isWord_pctWords (vmid : Nat) : ∀ w ∈ pctWords vmid, IsWord w := by
  simp only [pctWords, List.forall_mem_cons]
  exact ⟨isWord_of_all (by decide) (by decide), isWord_of_all (by decide) (by decide),
    isWord_numeral vmid, isWord_of_all (by decide) (by decide),
    isWord_of_all (by decide) (by decide), isWord_of_all (by decide) (by decide),
    fun _ h => absurd h List.not_mem_nil⟩

theorem isWord_shell (shell : WrapperShell) : IsWord shell.text := by
  cases shell <;> exact isWord_of_all (by decide) (by decide)

theorem isWord_timeoutWords (secs : Nat) (opts : TimeoutWrapperOptions) :
    ∀ w ∈ timeoutWords secs opts, IsWord w := by
  simp only [timeoutWords, List.forall_mem_cons]
  exact ⟨isWord_of_all (by decide) (by decide), isWord_of_all (by decide) (by decide),
    isWord_append (isWord_of_all (by decide) (by decide)) (isWord_numeral _),
    isWord_numeral secs, isWord_shell _, isWord_of_all (by decide) (by decide),
    fun _ h => absurd h List.not_mem_nil⟩

theorem spaced_pct (a b n d s c q : Str) :
    (a ++ ' ' :: (b ++ [' '])) ++ n ++ (' ' :: (d ++ ' ' :: (s ++ ' ' :: (c ++ [' '])))) ++ q =
      spaced [a, b, n, d, s, c] ++ q := by
  simp [spaced]

theorem spaced_timeout (a b k n m s c q : Str) :
    (a ++ ' ' :: (b ++ ' ' :: k)) ++ n ++ ' ' :: m ++ ' ' :: s ++ (' ' :: (c ++ [' '])) ++ q =
      spaced [a, b, k ++ n, m, s, c] ++ q := by
  simp [spaced]

theorem tokenize_inGuest {inner : Str} (vmid : Nat) (h : nul ∉ inner) :
    tokenize (inGuest inner (some vmid)) = (pctWords vmid ++ [inner]).map .word := by
  have hfront : "pct exec ".toList = "pct".toList ++ ' ' :: ("exec".toList ++ [' ']) := by decide
  have hback : " -- sh -c ".toList =
      ' ' :: ("--".toList ++ ' ' :: ("sh".toList ++ ' ' :: ("-c".toList ++ [' ']))) := by decide
  have hline : inGuest inner (some vmid) = spaced (pctWords vmid) ++ quoted inner :=
    (congrArg₂ (fun front back => front ++ numeral vmid ++ back ++ quoted inner) hfront hback).trans
      (spaced_pct _ _ _ _ _ _ _)
  rw [hline, tokenize_spaced_quoted (isWord_pctWords vmid) h]

theorem tokenize_buildTimeoutWrapper {command : Str} (secs : Nat) (opts : TimeoutWrapperOptions)
    (h : nul ∉ command) :
    tokenize (buildTimeoutWrapper command secs opts) =
      (timeoutWords secs opts ++ [command]).map .word := by
  have hfront : "timeout --signal=TERM --kill-after=".toList =
      "timeout".toList ++ ' ' :: ("--signal=TERM".toList ++ ' ' :: "--kill-after=".toList) := by
    decide
  have hback : " -c ".toList = ' ' :: ("-c".toList ++ [' ']) := by decide
  have hline : buildTimeoutWrapper command secs opts =
      spaced (timeoutWords secs opts) ++ quoted command :=
    (congrArg₂ (fun front back => front ++ numeral (opts.killAfterSecs.getD 5) ++
      ' ' :: numeral secs ++ ' ' :: (opts.shell.getD .bash).text ++ back ++ quoted command)
      hfront hback).trans (spaced_timeout _ _ _ _ _ _ _ _)
  rw [hline, tokenize_spaced_quoted (isWord_timeoutWords secs opts) h]

/-! ## The scripts -/

theorem nul_notMem_joinWords_quoted {paths : List Str} (h : ∀ p ∈ paths, nul ∉ p) :
    nul ∉ joinWords (paths.map quoted) := by
  refine nul_notMem_joinWords fun w hw => ?_
  obtain ⟨p, hp, rfl⟩ := List.mem_map.mp hw
  exact nul_notMem_quoted (h p hp)

theorem nul_notMem_script {front back : Str} {paths : List Str} (hfront : nul ∉ front)
    (hpaths : ∀ p ∈ paths, nul ∉ p) (hback : nul ∉ back) :
    nul ∉ front ++ joinWords (paths.map quoted) ++ back := by
  rw [List.mem_append, List.mem_append]
  rintro ((h | h) | h)
  · exact hfront h
  · exact nul_notMem_joinWords_quoted hpaths h
  · exact hback h

/-- A script that begins with plain words, then has quoted paths and then, after a
blank, something else. -/
theorem tokenize_script {front back rest : Str} {ws paths : List Str} (hws : ∀ w ∈ ws, IsWord w)
    (hfront : front = spaced ws) (hback : back = ' ' :: rest) (hpaths : ∀ p ∈ paths, nul ∉ p)
    (hrest : nul ∉ rest) :
    tokenize (front ++ joinWords (paths.map quoted) ++ back) =
      (ws ++ paths).map .word ++ scan .bare none rest := by
  subst hfront hback
  have hcons : nul ∉ ' ' :: rest := by
    rw [List.mem_cons, not_or]
    exact ⟨by decide, hrest⟩
  rw [tokenize_eq_scan (nul_notMem_script (nul_notMem_spaced hws) hpaths hcons), List.append_assoc,
    scan_spaced hws, scan_joinWords_quoted, List.map_append, List.append_assoc]

/-- The options of `find` that print an entry, and where its complaints go. -/
def printfTokens (format : Str) : List Token :=
  [.word "-printf".toList, .word format, .word "2".toList, .operator '>',
    .word "/dev/null".toList]

/-- The tokens of the script that lists the forest. -/
def forestEnumTokens (watchPaths : List Str) : List Token :=
  ("find".toList :: watchPaths).map .word ++ printfTokens "%y\\t%T@\\t%p\\n".toList

/-- The tokens of the script that lists the files of a sweep. -/
def findEnumTokens (watchPaths : List Str) : List Token :=
  ("find".toList :: watchPaths).map .word ++
    .word "-type".toList :: .word "f".toList :: printfTokens "%s\\t%p\\n".toList

/-- The tokens of the script that hashes the files of a sweep. -/
def sha256Tokens (paths : List Str) : List Token :=
  ("sha256sum".toList :: "--".toList :: paths).map .word

theorem isWord_find : ∀ w ∈ ["find".toList], IsWord w :=
  fun _ hw => List.mem_singleton.mp hw ▸ isWord_of_all (by decide) (by decide)

theorem isWord_sha256sum : ∀ w ∈ ["sha256sum".toList, "--".toList], IsWord w := by
  rw [List.forall_mem_cons]
  exact ⟨isWord_of_all (by decide) (by decide),
    fun _ hw => List.mem_singleton.mp hw ▸ isWord_of_all (by decide) (by decide)⟩

variable {paths : List Str}

theorem tokenize_forestEnum (h : ∀ p ∈ paths, nul ∉ p) :
    tokenize (buildForestEnumCommand paths none) = forestEnumTokens paths := by
  have hscan : scan .bare none "-printf '%y\\t%T@\\t%p\\n' 2>/dev/null".toList =
      printfTokens "%y\\t%T@\\t%p\\n".toList := by decide +kernel
  rw [forestEnumTokens, ← hscan]
  exact tokenize_script isWord_find (by decide) (by decide) h (by decide)

theorem tokenize_findEnum (h : ∀ p ∈ paths, nul ∉ p) :
    tokenize (buildFindEnumCommand paths none) = findEnumTokens paths := by
  have hscan : scan .bare none "-type f -printf '%s\\t%p\\n' 2>/dev/null".toList =
      .word "-type".toList :: .word "f".toList :: printfTokens "%s\\t%p\\n".toList := by
    decide +kernel
  rw [findEnumTokens, ← hscan]
  exact tokenize_script isWord_find (by decide) (by decide) h (by decide)

theorem nul_notMem_sha256 (h : ∀ p ∈ paths, nul ∉ p) :
    nul ∉ "sha256sum -- ".toList ++ joinWords (paths.map quoted) := by
  rw [List.mem_append]
  rintro (hfront | hpaths)
  · exact absurd hfront (by decide)
  · exact nul_notMem_joinWords_quoted h hpaths

theorem tokenize_sha256 (h : ∀ p ∈ paths, nul ∉ p) :
    tokenize ("sha256sum -- ".toList ++ joinWords (paths.map quoted)) = sha256Tokens paths := by
  have hfront : "sha256sum -- ".toList = spaced ["sha256sum".toList, "--".toList] := by decide
  rw [tokenize_eq_scan (nul_notMem_sha256 h), hfront, scan_spaced isWord_sha256sum, scan_joinWords_quoted_end]
  rfl

theorem buildSha256Command_eq_some {vmid : Option Nat} {line : Str} :
    buildSha256Command paths vmid = some line ↔ paths ≠ [] ∧
      inGuest ("sha256sum -- ".toList ++ joinWords (paths.map quoted)) vmid = line := by
  rw [buildSha256Command]
  by_cases hempty : paths = []
  · rw [if_pos hempty]
    exact iff_of_false (fun h => by cases h) fun h => h.1 hempty
  · rw [if_neg hempty, Option.some.injEq]
    exact (and_iff_right hempty).symm

/-! ## All the layers -/

/-- A line that runs a script: the words in front of it, the script, and how a
shell reads that in turn. -/
def RunsScript (line : Str) (front : List Str) (tokens : List Token) : Prop :=
  ∃ script, tokenize line = (front ++ [script]).map .word ∧ tokenize script = tokens

/-- Every layer of quotes gives back what was put into it: argument lists, the
paths of a script that runs on the node or in a guest, and the command of the
`timeout` wrapper around either. There is a `sha256sum` line for each list of
paths that is not empty (`buildSha256Command_eq_some`). -/
theorem quoting_survives_nesting :
    (∀ args : List Str, (∀ a ∈ args, nul ∉ a) →
      tokenize (joinWords (args.map shQuote)) = args.map .word ∧
        tokenize (joinWords (args.map shSingleQuote)) = args.map .word) ∧
    (∀ (paths : List Str) (vmid : Nat), (∀ p ∈ paths, nul ∉ p) →
      tokenize (buildForestEnumCommand paths none) = forestEnumTokens paths ∧
        RunsScript (buildForestEnumCommand paths (some vmid)) (pctWords vmid)
          (forestEnumTokens paths)) ∧
    (∀ (paths : List Str) (vmid : Nat), (∀ p ∈ paths, nul ∉ p) →
      tokenize (buildFindEnumCommand paths none) = findEnumTokens paths ∧
        RunsScript (buildFindEnumCommand paths (some vmid)) (pctWords vmid)
          (findEnumTokens paths)) ∧
    (∀ (paths : List Str) (vmid : Nat) (line : Str), (∀ p ∈ paths, nul ∉ p) →
      (buildSha256Command paths none = some line → tokenize line = sha256Tokens paths) ∧
        (buildSha256Command paths (some vmid) = some line →
          RunsScript line (pctWords vmid) (sha256Tokens paths))) ∧
    ∀ (command : Str) (secs : Nat) (opts : TimeoutWrapperOptions), nul ∉ command →
      tokenize (buildTimeoutWrapper command secs opts) =
        (timeoutWords secs opts ++ [command]).map .word := by
  refine ⟨?_, ?_, ?_, ?_, ?_⟩
  · intro args h
    exact ⟨tokenize_joinWords_quoted h, tokenize_joinWords_quoted h⟩
  · intro paths vmid h
    have hnul : nul ∉ buildForestEnumCommand paths none :=
      nul_notMem_script (by decide) h (by decide)
    exact ⟨tokenize_forestEnum h, _, tokenize_inGuest vmid hnul, tokenize_forestEnum h⟩
  · intro paths vmid h
    have hnul : nul ∉ buildFindEnumCommand paths none :=
      nul_notMem_script (by decide) h (by decide)
    exact ⟨tokenize_findEnum h, _, tokenize_inGuest vmid hnul, tokenize_findEnum h⟩
  · intro paths vmid line h
    constructor
    · intro hline
      obtain ⟨-, rfl⟩ := buildSha256Command_eq_some.mp hline
      exact tokenize_sha256 h
    · intro hline
      obtain ⟨-, rfl⟩ := buildSha256Command_eq_some.mp hline
      exact ⟨_, tokenize_inGuest vmid (nul_notMem_sha256 h), tokenize_sha256 h⟩
  · exact fun command secs opts h => tokenize_buildTimeoutWrapper secs opts h

end HomelabMcp.Quoting
