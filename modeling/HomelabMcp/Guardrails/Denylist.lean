import HomelabMcp.Lib.Regex
import HomelabMcp.Lib.Text

/-!
# The command guardrail (denylist.ts)

Patterns are matched against the whole command, once its white space is collapsed and it
is in lower case; configured entries and availability commands are matched segment by
segment. `toLowerCase` is a parameter, of which is kept that it does not look beyond a
blank or a semicolon.

- `checkCommand`: the verdict on a command.
-/

namespace HomelabMcp.Guardrails

open SlashPath Text Regex

/-- `s.toLowerCase()`. -/
structure LowerCase where
  toLowerCase : Str → Str
  nil : toLowerCase [] = []
  /-- No mapping depends on what stands beyond a blank or a semicolon. -/
  apart : ∀ (a b : Str) (c : Char), c = ' ' ∨ c = ';' →
    toLowerCase (a ++ c :: b) = toLowerCase a ++ c :: toLowerCase b

/-- `s.replace(/\s+/g, " ")`, after white space or not. -/
def collapseFrom : Bool → Str → Str
  | _, [] => []
  | afterSpace, c :: s =>
    if isSpace c then
      if afterSpace then collapseFrom true s else ' ' :: collapseFrom true s
    else c :: collapseFrom false s

/-- A command without white space at its ends, and with one blank for each within. -/
def collapsed (s : Str) : Str :=
  trim (collapseFrom false s)

def normalize (lower : LowerCase) (s : Str) : Str :=
  lower.toLowerCase (collapsed s)

/-! ## Segments -/

def isQuote (c : Char) : Bool :=
  c == '"' || c == '\''

/-- The separators of one character. -/
def isSeparator (c : Char) : Bool :=
  ['\x60', ')', ';', '|', '&', newline].contains c

/-- The loop of `splitSegments`: the open quote, the segment so far, and what is left. -/
def scanSegments : Option Char → Str → Str → List Str
  | _, cur, [] => [cur]
  | some quote, cur, c :: s =>
    scanSegments (if c = quote then none else some quote) (cur ++ [c]) s
  | none, cur, [c] =>
    if isQuote c then [cur ++ [c]]
    else if isSeparator c then [cur, []]
    else [cur ++ [c]]
  | none, cur, c :: d :: s =>
    if isQuote c then scanSegments (some c) (cur ++ [c]) (d :: s)
    else if [c, d] = ['$', '('] ∨ [c, d] = ['&', '&'] ∨ [c, d] = ['|', '|'] then
      cur :: scanSegments none [] s
    else if isSeparator c then cur :: scanSegments none [] (d :: s)
    else scanSegments none (cur ++ [c]) (d :: s)

/-- denylist.ts:25. -/
def splitSegments (command : Str) : List Str :=
  ((scanSegments none [] command).map trim).filter fun s => decide (s ≠ [])

/-- denylist.ts:71. -/
def commandToken (lower : LowerCase) (segment : Str) : Str :=
  (List.splitOn '/' ((List.splitOn ' ' (normalize lower segment)).headD [])).getLastD []

/-! ## Patterns -/

/-- A regular expression and the text of it. -/
structure Pattern where
  source : Str
  regex : Regex

def space : Regex := .cls isSpace

/-- `.`, which matches no line terminator. -/
def dot : Regex := .cls fun c => !isLineTerminator c

/-- `[^\n]*`. -/
def restOfLine : Regex := .star (.cls fun c => c != newline)

/-- `\/etc\/pve(\/|\b)`. -/
def underEtcPve : Regex := .seq (lit "/etc/pve") (.alt (lit "/") .wordBoundary)

/-- `\/dev\/(sd[a-z]|nvme\d)`. -/
def blockDevice : Regex :=
  .seq (lit "/dev/") (.alt (.seq (lit "sd") (.cls Char.isLower)) (.seq (lit "nvme") (.cls Char.isDigit)))

/-- denylist.ts:84. -/
def protectedPatterns : List Pattern :=
  [⟨"/\\b(rm|rmdir|shred|unlink)\\b[^\\n]*\\/etc\\/pve(\\/|\\b)/".toList,
      concat [.wordBoundary, oneOf ["rm", "rmdir", "shred", "unlink"], .wordBoundary, restOfLine,
        underEtcPve]⟩,
    ⟨"/\\bmv\\b[^\\n]*\\/etc\\/pve(\\/|\\b)/".toList,
      concat [.wordBoundary, lit "mv", .wordBoundary, restOfLine, underEtcPve]⟩,
    ⟨"/\\btruncate\\b[^\\n]*\\/etc\\/pve(\\/|\\b)/".toList,
      concat [.wordBoundary, lit "truncate", .wordBoundary, restOfLine, underEtcPve]⟩,
    ⟨"/>\\s*\\/etc\\/pve\\//".toList, concat [lit ">", .star space, lit "/etc/pve/"]⟩,
    ⟨"/\\bpvecm\\s+(add|addnode|delnode|qdevice)\\b/".toList,
      concat [.wordBoundary, lit "pvecm", plus space, oneOf ["add", "addnode", "delnode", "qdevice"],
        .wordBoundary]⟩]

/-- `\brm\s+-rf\s+\/`. -/
def rmRoot : Regex :=
  concat [.wordBoundary, lit "rm", plus space, lit "-rf", plus space, lit "/"]

/-- `\*|\s`. -/
def starOrSpace : Regex := .alt (lit "*") space

def rmRootPattern : Pattern where
  source := "/\\brm\\s+-rf\\s+\\/(\\*|\\s|$)/".toList
  regex := .seq rmRoot (.alt starOrSpace .atEnd)

/-- The other patterns of denylist.ts:94. -/
def otherDenyPatterns : List Pattern :=
  [⟨"/\\bmkfs\\b/".toList, concat [.wordBoundary, lit "mkfs", .wordBoundary]⟩,
    ⟨"/\\bdd\\s+if=\\/dev\\/(zero|random|urandom)/".toList,
      concat [.wordBoundary, lit "dd", plus space, lit "if=/dev/",
        oneOf ["zero", "random", "urandom"]]⟩,
    ⟨"/\\bdd\\s+.*of=\\/dev\\/(sd[a-z]|nvme\\d)/".toList,
      concat [.wordBoundary, lit "dd", plus space, .star dot, lit "of=", blockDevice]⟩,
    ⟨"/>\\s*\\/dev\\/(sd[a-z]|nvme\\d)/".toList, concat [lit ">", .star space, blockDevice]⟩,
    ⟨"/:\\(\\)\\s*\\\x7b.*\\|.*&.*\\\x7d/".toList,
      concat [lit ":()", .star space, lit "\x7b", .star dot, lit "|", .star dot, lit "&", .star dot,
        lit "\x7d"]⟩,
    ⟨"/\\bchmod\\s+-r\\s+777\\s+\\//".toList,
      concat [.wordBoundary, lit "chmod", plus space, lit "-r", plus space, lit "777", plus space,
        lit "/"]⟩]

def denyPatterns : List Pattern :=
  rmRootPattern :: otherDenyPatterns

/-! ## The verdict -/

inductive CommandTier
  | allow
  | confirm
  | deny
  deriving DecidableEq, Repr

/-- The tiers in their order. -/
def CommandTier.rank : CommandTier → Nat
  | .allow => 0
  | .confirm => 1
  | .deny => 2

structure CommandVerdict where
  tier : CommandTier
  reason : Option Str
  deriving DecidableEq

def confirmSimple : List Str :=
  ["shutdown".toList, "reboot".toList, "halt".toList, "poweroff".toList]

def systemctlConfirm : List Str :=
  ["reboot".toList, "poweroff".toList, "halt".toList]

/-- denylist.ts:117. -/
def segmentNeedsConfirm (lower : LowerCase) (segment : Str) : Bool :=
  let tokens := List.splitOn ' ' (normalize lower segment)
  let cmd := commandToken lower segment
  if confirmSimple.contains cmd then true
  else if cmd = "init".toList ∧ (tokens[1]? = some ['0'] ∨ tokens[1]? = some ['6']) then true
  else if cmd = "systemctl".toList then
    match (tokens.drop 1).find? fun t => !(['-'].isPrefixOf t) with
    | some sub => systemctlConfirm.contains sub
    | none => false
  else false

def confirmTag : Str := "confirm:".toList

def isConfirmEntry (lower : LowerCase) (raw : Str) : Bool :=
  confirmTag.isPrefixOf (lower.toLowerCase raw)

/-- A configured entry, as it is compared. -/
def entryOf (lower : LowerCase) (raw : Str) : Str :=
  normalize lower (if isConfirmEntry lower raw then raw.drop confirmTag.length else raw)

/-- Some segment is the entry or begins with it and a blank. -/
def matchesEntry (lower : LowerCase) (segments : List Str) (raw : Str) : Bool :=
  let entry := entryOf lower raw
  decide (entry ≠ []) && segments.any fun s =>
    normalize lower s == entry || (entry ++ [' ']).isPrefixOf (normalize lower s)

/-- The configured entries in turn: the first deny entry that matches, or else the last
confirm entry that does. -/
def checkEntries (lower : LowerCase) (segments : List Str) :
    Option Str → List Str → Except Str (Option Str)
  | configConfirm, [] => .ok configConfirm
  | configConfirm, raw :: extra =>
    if matchesEntry lower segments raw then
      if isConfirmEntry lower raw then
        checkEntries lower segments (some (trim (raw.drop confirmTag.length))) extra
      else .error (entryOf lower raw)
    else checkEntries lower segments configConfirm extra

def protectedReason (p : Pattern) : Str :=
  ("protected set (ADR-007 §4): /etc/pve and cluster membership are off-limits " ++
    "at every tier including root (matched ").toList ++ p.source ++ [')']

def findPattern (patterns : List Pattern) (normalizedFull : Str) : Option Pattern :=
  patterns.find? fun p => p.regex.test normalizedFull

/-- denylist.ts:136. -/
def checkCommand (lower : LowerCase) (command : Str) (extraDenylist : List Str) :
    CommandVerdict :=
  let normalizedFull := normalize lower command
  let segments := splitSegments command
  match findPattern protectedPatterns normalizedFull with
  | some p => ⟨.deny, some (protectedReason p)⟩
  | none =>
    match findPattern denyPatterns normalizedFull with
    | some p => ⟨.deny, some ("matches built-in dangerous pattern: ".toList ++ p.source)⟩
    | none =>
      match checkEntries lower segments none extraDenylist with
      | .error entry => ⟨.deny, some ("matches configured denylist entry: ".toList ++ entry)⟩
      | .ok configConfirm =>
        match segments.find? (segmentNeedsConfirm lower), configConfirm with
        | some s, _ => ⟨.confirm, some ("availability-class command \"".toList ++
            commandToken lower s ++ "\" requires confirm:true".toList)⟩
        | none, some c => ⟨.confirm, some ("configured confirm-tier command \"".toList ++ c ++
            "\" requires confirm:true".toList)⟩
        | none, none => ⟨.allow, none⟩

end HomelabMcp.Guardrails
