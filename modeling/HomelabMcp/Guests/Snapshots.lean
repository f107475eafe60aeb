import HomelabMcp.Integrity.Transport
import HomelabMcp.Lib.Instant
import HomelabMcp.Lib.Shell
import HomelabMcp.Lib.SortKey

/-!
# Snapshot guard primitives (snapshots.ts)

The server only manages snapshots that it made, which it knows by the `mcp-` at
the head of their names. This module has the names, the parser of the listing, the
retention planner and the command builders.

- `snapshotCommand_fourWords_iff`: for which names a shell reads the commands that
  name a snapshot as the words they were built from.
-/

namespace HomelabMcp.Guests

open SlashPath Text SortKey Integrity Shell

inductive GuestType
  | pct
  | qm
  deriving DecidableEq, Repr

/-- The name of the tool that manages guests of this type. -/
def GuestType.text : GuestType → Str
  | .pct => "pct".toList
  | .qm => "qm".toList

/-- `MCP_SNAPSHOT_PREFIX`. -/
def mcpSnapshotPrefix : Str := "mcp-".toList

/-- snapshots.ts:23. -/
structure SnapshotInfo where
  name : Str
  description : Str
  mcpManaged : Bool
  deriving DecidableEq

/-- snapshots.ts:29. -/
def isMcpSnapshot (name : Str) : Bool :=
  mcpSnapshotPrefix.isPrefixOf name

/-- `[A-Za-z0-9_-]`. -/
def isSnapshotChar (c : Char) : Bool :=
  c.isAlphanum || c == '_' || c == '-'

/-- snapshots.ts:37: a code unit outside the charset becomes a dash. -/
def sanitizeSnapshotName (name : Str) : Str :=
  let s := (codeUnits name).map fun u => if isSnapshotChar (unitChar u) then unitChar u else '-'
  let t := if (s.head?.map Char.isAlpha).getD false then s else 's' :: s
  t.take 40

/-- `padStart(2, "0")` of a numeral. -/
def padStart2 (n : Nat) : Str :=
  if n < 10 then '0' :: numeral n else numeral n

/-- The compact UTC time of snapshots.ts:49 and backups.ts:50. -/
def compactStamp (now : Instant) : Str :=
  numeral now.year ++ padStart2 now.month ++ padStart2 now.day ++
    '-' :: padStart2 now.hour ++ padStart2 now.minute ++ padStart2 now.second

/-- snapshots.ts:47. -/
def generateSnapshotName (now : Instant) : Str :=
  sanitizeSnapshotName (mcpSnapshotPrefix ++ compactStamp now)

example : generateSnapshotName ⟨2026, 6, 9, 21, 30, 0, 0, by decide⟩ =
    "mcp-20260609-213000".toList := by decide

/-! ## The listing -/

/-- Each arrow of the tree becomes a blank. -/
def replaceArrows : Str → Str
  | '-' :: '>' :: s => ' ' :: replaceArrows s
  | c :: s => c :: replaceArrows s
  | [] => []

/-- A line of the listing without the characters of the tree. -/
def stripDrawing (raw : Str) : Str :=
  replaceArrows (raw.map fun c => if c == backquote || c == '|' then ' ' else c)

/-- The marker of the present state in the tree, which is no snapshot. -/
def currentMarker : Str := "current".toList

/-- One line of snapshots.ts:64. -/
def parseSnapshotLine (raw : Str) : Option SnapshotInfo :=
  match words (trim (stripDrawing raw)) with
  | [] => none
  | name :: rest =>
    if name = [] ∨ name = currentMarker then none
    else some ⟨name, joinWith ' ' rest, isMcpSnapshot name⟩

/-- snapshots.ts:61. -/
def parseSnapshotList (output : Str) : List SnapshotInfo :=
  (lines output).filterMap parseSnapshotLine

/-- snapshots.ts:84: names hold sortable times, so the first ones are the oldest. -/
def planSnapshotEviction (mcpNames : List Str) (cap : Int) (incoming : Int) : List Str :=
  let sorted := sortOn codeUnits mcpNames
  let allowed := max 0 (cap - incoming)
  if (sorted.length : Int) ≤ allowed then []
  else sorted.take (sorted.length - allowed.toNat)

/-! ## Commands -/

def buildGuestStatusCommand (type : GuestType) (vmid : Nat) : Str :=
  type.text ++ ' ' :: "status".toList ++ ' ' :: numeral vmid

def buildGuestStopCommand (type : GuestType) (vmid : Nat) : Str :=
  type.text ++ ' ' :: "stop".toList ++ ' ' :: numeral vmid

def buildGuestStartCommand (type : GuestType) (vmid : Nat) : Str :=
  type.text ++ ' ' :: "start".toList ++ ' ' :: numeral vmid

def buildSnapshotListCommand (type : GuestType) (vmid : Nat) : Str :=
  type.text ++ ' ' :: "listsnapshot".toList ++ ' ' :: numeral vmid

/-- snapshots.ts:108. -/
structure SnapshotCreateOpts where
  description : Option Str
  vmstate : Bool
  deriving DecidableEq

/-- snapshots.ts:114: containers have no RAM state to include. -/
def buildSnapshotCreateCommand (type : GuestType) (vmid : Nat) (name : Str)
    (opts : SnapshotCreateOpts) : Str :=
  type.text ++ ' ' :: "snapshot".toList ++ ' ' :: numeral vmid ++ ' ' :: name ++
    (match opts.description with
      | none | some [] => []
      | some d => " --description ".toList ++ shQuote d) ++
    (match type with
      | .qm => " --vmstate ".toList ++ numeral (if opts.vmstate then 1 else 0)
      | .pct => [])

def buildSnapshotRollbackCommand (type : GuestType) (vmid : Nat) (name : Str) : Str :=
  type.text ++ ' ' :: "rollback".toList ++ ' ' :: numeral vmid ++ ' ' :: name

def buildSnapshotDeleteCommand (type : GuestType) (vmid : Nat) (name : Str) : Str :=
  type.text ++ ' ' :: "delsnapshot".toList ++ ' ' :: numeral vmid ++ ' ' :: name

def buildGuestConfigCommand (type : GuestType) (vmid : Nat) : Str :=
  type.text ++ ' ' :: "config".toList ++ ' ' :: numeral vmid

/-- `parseGuestStatus` (snapshots.ts:133). -/
def parseGuestStatus (output : Str) : Str :=
  parsePctStatus output

/-! ## How a shell reads the commands that name a snapshot -/

/-- The two commands that take the name of a snapshot from the caller. -/
inductive SnapshotVerb
  | rollback
  | delete
  deriving DecidableEq

def SnapshotVerb.word : SnapshotVerb → Str
  | .rollback => "rollback".toList
  | .delete => "delsnapshot".toList

def SnapshotVerb.command : SnapshotVerb → GuestType → Nat → Str → Str
  | .rollback => buildSnapshotRollbackCommand
  | .delete => buildSnapshotDeleteCommand

theorem SnapshotVerb.command_eq (verb : SnapshotVerb) (type : GuestType) (vmid : Nat)
    (name : Str) :
    verb.command type vmid name = spaced [type.text, verb.word, numeral vmid] ++ name := by
  cases verb with
  | rollback =>
    show type.text ++ ' ' :: SnapshotVerb.rollback.word ++ ' ' :: numeral vmid ++ ' ' :: name = _
    generalize SnapshotVerb.rollback.word = w
    simp [spaced]
  | delete =>
    show type.text ++ ' ' :: SnapshotVerb.delete.word ++ ' ' :: numeral vmid ++ ' ' :: name = _
    generalize SnapshotVerb.delete.word = w
    simp [spaced]

theorem isWord_type (type : GuestType) : IsWord type.text := by
  cases type <;> exact ⟨by decide, List.all_eq_true.mp (by decide), by decide, by decide⟩

theorem SnapshotVerb.isWord (verb : SnapshotVerb) : IsWord verb.word := by
  cases verb <;> exact ⟨by decide, List.all_eq_true.mp (by decide), by decide, by decide⟩

theorem tokenize_command_iff (verb : SnapshotVerb) (type : GuestType) (vmid : Nat) {name : Str}
    (h : isMcpSnapshot name = true) :
    tokenize (verb.command type vmid name) =
        [.word type.text, .word verb.word, .word (numeral vmid), .word name] ↔
      isPlain name = true := by
  have hws : ∀ w ∈ [type.text, verb.word, numeral vmid], IsWord w := by
    intro w hw
    simp only [List.mem_cons, List.not_mem_nil, or_false] at hw
    rcases hw with rfl | rfl | rfl
    · exact isWord_type type
    · exact verb.isWord
    · exact isWord_numeral vmid
  -- A server-made name starts with a letter.
  obtain ⟨rest, rfl⟩ := List.isPrefixOf_iff_prefix.mp h
  rw [verb.command_eq]
  exact tokenize_spaced_iff hws (by decide) (by decide) (by decide)

/-- A shell reads the command as its four words exactly when every character of the
name stands for itself. What a shell does to the words after that is outside: pathname
expansion, and the expansion of braces and of `$[`, which some shells have. -/
theorem snapshotCommand_fourWords_iff (verb : SnapshotVerb) (type : GuestType) (vmid : Nat)
    (name : Str) (h : isMcpSnapshot name = true) :
    tokenize (verb.command type vmid name) =
        [.word type.text, .word verb.word, .word (numeral vmid), .word name] ↔
      isPlain name = true :=
  tokenize_command_iff verb type vmid h

theorem snapshotCommand_fourWords_iff_generated :
    tokenize (SnapshotVerb.rollback.command .qm 105 "mcp-20260609-213000".toList) =
      [.word "qm".toList, .word "rollback".toList, .word "105".toList,
        .word "mcp-20260609-213000".toList] :=
  (snapshotCommand_fourWords_iff .rollback .qm 105 _ (by decide)).mpr (by decide)

/-- A name that passes the check, and ends the command before a second one. -/
theorem not_snapshotCommand_fourWords :
    ¬∀ (verb : SnapshotVerb) (type : GuestType) (vmid : Nat) (name : Str),
      isMcpSnapshot name = true →
        tokenize (verb.command type vmid name) =
          [.word type.text, .word verb.word, .word (numeral vmid), .word name] := by
  intro h
  have hreboot := h .delete .pct 105 "mcp-x; reboot".toList (by decide)
  exact absurd hreboot (by decide +kernel)

end HomelabMcp.Guests
