import HomelabMcp.Lib.Effect
import HomelabMcp.Integrity.NodeStore

/-!
# What the engine asks of a node, and how it reads the answers

The node is a `World`: it answers the `k`-th command of a run, or the transport
throws. Nothing is assumed about two answers being about the same moment. The
command builders and parsers are those of forest.ts, pctFiles.ts,
pctHelpers.ts, configSweep.ts and sweepPlanner.ts.
-/

namespace HomelabMcp.Integrity

open SlashPath Text

/-- transport.ts:1, without the fields the integrity subsystem does not read. -/
structure ExecResult where
  stdout : Str
  stderr : Str
  exitCode : Option Int

/-- The outside of one run: the remote node, and the sources of fresh record ids
and time stamps. -/
structure World where
  exec : Nat → Str → Except Str ExecResult
  uuid : Nat → Str
  now : Nat → Str

/-- Transport calls: the state counts the calls made so far. -/
abbrev Wire := EStateM Str Nat

def World.run (w : World) (cmd : Str) : Wire ExecResult := fun k =>
  match w.exec k cmd with
  | .ok res => .ok res (k + 1)
  | .error e => .error e (k + 1)

/-- The configuration the integrity subsystem reads (config.ts:225, 302). -/
structure Config where
  hostWatchPaths : List Str
  containerWatchPaths : List Str
  excludePatterns : List Str
  configFileGlobs : List Str
  maxUnexplainedL3 : Int
  allowL2AutoAccept : Bool
  sensitiveGlobs : List Str

/-- The defaults (config.ts:255, 259, 311, 329). -/
def Config.default : Config where
  hostWatchPaths := ["/etc".toList]
  containerWatchPaths := ["/etc".toList]
  excludePatterns := ["**/*.lock", "**/*.sock", "/etc/mtab", "/etc/.pwd.lock", "/etc/lvm/cache/*",
    "/etc/lvm/archive/*", "/etc/lvm/backup/*", "/etc/pve/.version", "/etc/pve/.rrd",
    "/etc/pve/.clusterlog", "/etc/pve/.vmlist", "/etc/pve/.members", "/etc/pve/.debug",
    "**/lrm_status"].map String.toList
  configFileGlobs := ["**/*.conf", "**/*.cfg", "**/*.yml", "**/*.yaml", "**/*.ini", "**/*.toml",
    "**/*.json", "**/*.env", "**/*config", "**/sshd_config", "**/fstab", "**/hosts",
    "**/crontab"].map String.toList
  maxUnexplainedL3 := 20
  allowL2AutoAccept := false
  sensitiveGlobs := ["/etc/pve".toList]

/-! ## Globs -/

/-- One piece of the regular expression a glob becomes. -/
inductive GlobToken
  | anyRun
  | anyInSegment
  | oneInSegment
  | lit (unit : Nat)
  deriving DecidableEq

def slashUnit : Nat := 47

def starUnit : Nat := 42

def questionUnit : Nat := 63

/-- `globToRegExp` (sweepPlanner.ts), on code units. -/
def globToRegExp : List Nat → List GlobToken
  | [] => []
  | [u] =>
    [if u = starUnit then .anyInSegment else if u = questionUnit then .oneInSegment else .lit u]
  | u :: v :: l =>
    if u = starUnit then
      if v = starUnit then .anyRun :: globToRegExp l else .anyInSegment :: globToRegExp (v :: l)
    else if u = questionUnit then .oneInSegment :: globToRegExp (v :: l)
    else .lit u :: globToRegExp (v :: l)

/-- `x*rest` where `x` matches the allowed units. -/
def starThen (allowed : Nat → Bool) (rest : List Nat → Bool) : List Nat → Bool
  | [] => rest []
  | u :: t => rest (u :: t) || (allowed u && starThen allowed rest t)

def dotUnit (u : Nat) : Bool :=
  !(u == 10 || u == 13 || u == 0x2028 || u == 0x2029)

/-- `new RegExp(…).test(…)`, anchored at both ends. -/
def testTokens : List GlobToken → List Nat → Bool
  | [] => fun t => t.isEmpty
  | .anyRun :: ts => starThen dotUnit (testTokens ts)
  | .anyInSegment :: ts => starThen (fun u => u != slashUnit) (testTokens ts)
  | .oneInSegment :: ts => fun
    | [] => false
    | u :: t => u != slashUnit && testTokens ts t
  | .lit v :: ts => fun
    | [] => false
    | u :: t => u == v && testTokens ts t

def globTest (glob path : Str) : Bool :=
  testTokens (globToRegExp (codeUnits glob)) (codeUnits path)

def matchesAnyGlob (path : Str) (patterns : List Str) : Bool :=
  patterns.any fun p => globTest p path

example : globTest "**/*.conf".toList "/etc/ssh/a.conf".toList = true ∧
    globTest "/etc/*".toList "/etc/ssh/a.conf".toList = false := by decide +kernel

/-! ## Commands -/

def quoteChar : Char := Char.ofNat 39

/-- pctFiles.ts:21. -/
def shQuote (s : Str) : Str :=
  quoteChar :: (s.flatMap fun c =>
    if c = quoteChar then [quoteChar, '\\', quoteChar, quoteChar] else [c]) ++ [quoteChar]

def joinWith (sep : Char) : List Str → Str
  | [] => []
  | [s] => s
  | s :: l => s ++ sep :: joinWith sep l

/-- `pct exec <vmid> -- sh -c <inner>`, or the command itself on the host. -/
def onTarget (vmid : Option Nat) (inner : Str) : Str :=
  match vmid with
  | none => inner
  | some v => "pct exec ".toList ++ numeral v ++ " -- sh -c ".toList ++ shQuote inner

def pctListCommand : Str := "pct list".toList

def buildPctStatusCommand (vmid : Nat) : Str :=
  "pct status ".toList ++ numeral vmid

/-- forest.ts:111. -/
def buildForestEnumCommand (watchPaths : List Str) (vmid : Option Nat) : Str :=
  onTarget vmid ("find ".toList ++ joinWith ' ' (watchPaths.map shQuote) ++
    " -printf '%y\\t%T@\\t%p\\n' 2>/dev/null".toList)

/-- configSweep.ts:84. -/
def buildSha256Command (paths : List Str) (vmid : Option Nat) : Option Str :=
  if paths = [] then none
  else some (onTarget vmid ("sha256sum -- ".toList ++ joinWith ' ' (paths.map shQuote)))

/-! ## Parsers -/

/-- pctHelpers.ts:3. -/
structure PctContainer where
  vmid : Nat
  status : Str
  lock : Str
  name : Str
  deriving DecidableEq

def parsePctLine (line : Str) : PctContainer :=
  match words line with
  | vmid :: status :: lock :: name :: _ => ⟨parseInt vmid, status, lock, name⟩
  | parts => ⟨parseInt (parts.getD 0 ['0']), parts.getD 1 [], [], parts.getD 2 []⟩

/-- pctHelpers.ts:14. Ids are read as the integers they are; a line of the tool
starts with a decimal one. -/
def parsePctList (output : Str) : List PctContainer :=
  (((lines output).map trim).filter fun l => (l.head?.map Char.isDigit).getD false).map
    parsePctLine

def statusLabel : Str := "status:".toList

/-- pctFiles.ts:37. -/
def parsePctStatus : Str → Str
  | [] => []
  | c :: l =>
    let rest := ((c :: l).drop statusLabel.length).dropWhile isSpace
    if toLowerCase ((c :: l).take statusLabel.length) = statusLabel ∧ rest ≠ [] then
      toLowerCase (rest.takeWhile fun d => !isSpace d)
    else parsePctStatus l

inductive EntryKind
  | file
  | dir
  deriving DecidableEq, Repr

/-- forestShape.ts:23. -/
structure EnumeratedEntry where
  nodePath : Str
  kind : EntryKind
  mtime : Option Int
  state : NodeState
  absolute : nodePath.head? = some '/'
  deriving DecidableEq

def parseKind (y : Str) : Option EntryKind :=
  if y = ['d'] then some .dir
  else if y = ['f'] ∨ y = ['l'] then some .file
  else none

def parseEnumLine (line : Str) : Option EnumeratedEntry :=
  let y := line.takeWhile (· ≠ tab)
  let rest := (line.dropWhile (· ≠ tab)).drop 1
  let mtimeRaw := rest.takeWhile (· ≠ tab)
  let nodePath := (rest.dropWhile (· ≠ tab)).drop 1
  if line.count tab < 2 then none
  else if h : nodePath.head? = some '/' then
    (parseKind y).map fun kind =>
      ⟨nodePath, kind, if mtimeRaw = [] then none else truncNumber mtimeRaw, .present, h⟩
  else none

/-- forest.ts:118. -/
def parseForestEnumeration (stdout : Str) : List EnumeratedEntry :=
  (lines stdout).filterMap parseEnumLine

/-- What follows the digest on a `sha256sum` line: one or two blanks, then the
name, greedily. -/
def sumName (rest : Str) : Option Str :=
  let fits (s : Str) : Bool := s ≠ [] && s.all fun c => !isLineTerminator c
  match rest with
  | c :: r =>
    if isSpace c then
      if (r.head?.map isSpace).getD false && fits (r.drop 1) then some (r.drop 1)
      else if fits r then some r
      else none
    else none
  | [] => none

def parseSumLine (raw : Str) : Option (Str × Str) :=
  let line := if raw.getLast? = some carriageReturn then raw.dropLast else raw
  let hex := line.take 64
  if hex.length = 64 ∧ hex.all (fun c => (hexValue c).isSome) then
    (sumName (line.drop 64)).map fun name => (name, toLowerCase hex)
  else none

/-- `parseSha256Sum` (sweepPlanner.ts): a map from names to digests. -/
def parseSha256Sum (output : Str) : List (Str × Str) :=
  KeyedList.upsertAll Prod.fst ((lines output).filterMap parseSumLine) []

/-- Each parsed entry is what the parser says it is: present. -/
theorem parseForestEnumeration_present {stdout : Str} {e : EnumeratedEntry}
    (h : e ∈ parseForestEnumeration stdout) : e.state = .present := by
  obtain ⟨line, -, hline⟩ := List.mem_filterMap.mp h
  unfold parseEnumLine at hline
  dsimp only at hline
  split at hline
  · cases hline
  · split at hline
    · obtain ⟨kind, -, rfl⟩ := Option.map_eq_some_iff.mp hline
      rfl
    · cases hline

end HomelabMcp.Integrity
