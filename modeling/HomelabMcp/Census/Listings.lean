import HomelabMcp.Integrity.Forest
import HomelabMcp.Lib.SortKey

/-!
# What a census collects (describeHomelab.ts, censusProbe.ts, censusParsers.ts)

The guests and the storages of a node as its three listing commands show them, with a
probe that may fail. Configurations, agents, services and networks are left out; the
capability of a guest is what its configuration probe came to.

- `collect`: the snapshot of one call, before it is put in order and cut.
-/

namespace HomelabMcp.Census

open SlashPath Text Integrity

/-! ## Listings -/

/-- `parseInt(s.replace(/[^\d-]/g, ""), 10)`, and 0 for NaN. -/
def toInt (s : Str) : Int :=
  match s.filter fun c => c.isDigit || c == '-' with
  | '-' :: digits => -(parseInt digits : Int)
  | digits => parseInt digits

/-- censusParsers.ts:117; `line.trim()` of each drops the carriage return too. -/
def nonEmptyLines (output : Str) : List Str :=
  ((lines output).map trim).filter fun l => decide (l ≠ [])

structure QmRow where
  vmid : Nat
  name : Str
  status : Str
  deriving DecidableEq

/-- censusParsers.ts:249. -/
def parseQmList (output : Str) : List QmRow :=
  ((nonEmptyLines output).filter fun l => (l.head?.map Char.isDigit).getD false).map fun l =>
    let parts := words l
    ⟨(toInt (parts.getD 0 [])).toNat, parts.getD 1 [], parts.getD 2 []⟩

/-- censusParsers.ts:23. -/
structure StorageInfo where
  name : Str
  type : Str
  active : Bool
  totalBytes : Int
  usedBytes : Int
  availBytes : Int
  deriving DecidableEq

def parseStorageRow (parts : List Str) : Option StorageInfo :=
  match parts with
  | name :: type :: status :: total :: used :: avail :: _ =>
    if toLowerCase name = "name".toList then none
    else some ⟨name, type, decide (status = "active".toList), toInt total * 1024,
      toInt used * 1024, toInt avail * 1024⟩
  | _ => none

/-- censusParsers.ts:272. -/
def parsePvesmStatus (output : Str) : List StorageInfo :=
  (nonEmptyLines output).filterMap fun l => parseStorageRow (words l)

/-! ## Probes -/

inductive CensusSection
  | node
  | storage
  | network
  | containers
  | vms
  | services
  | tailscale
  deriving DecidableEq, Repr

/-- The order in which the sections are collected. -/
def CensusSection.order : CensusSection → Nat
  | .node => 0
  | .storage => 1
  | .network => 2
  | .containers => 3
  | .vms => 4
  | .services => 5
  | .tailscale => 6

/-- censusTypes.ts:132. -/
structure CensusError where
  sect : CensusSection
  probe : Str
  error : Str
  deriving DecidableEq

/-- censusProbe.ts:23. -/
def expectSuccess (result : ExecResult) : Except Str Str :=
  if result.exitCode = some 0 then .ok result.stdout
  else .error (exitText result.exitCode ++ ": ".toList ++
    if trim result.stderr = [] then "(no stderr)".toList else trim result.stderr)

/-- What a probe is answered: the transport may throw, and the command may fail. -/
def hard (answer : Except Str ExecResult) : Except Str Str :=
  answer.bind expectSuccess

/-- censusProbe.ts:92, within the time budget. -/
def runProbe {α : Type} (s : CensusSection) (key : Str) (parser : Str → List α)
    (answer : Except Str ExecResult) : List α × List CensusError :=
  match hard answer with
  | .ok stdout => (parser stdout, [])
  | .error e => ([], [⟨s, key, e⟩])

/-- A listing command at the time of a call: what the node has, as it would be shown, and
what the probe is answered. -/
structure Listing where
  shown : Str
  answer : Except Str ExecResult
  faithful : ∀ stdout, hard answer = .ok stdout → stdout = shown

/-- The probe of the listing fails. -/
def Listing.fails (l : Listing) : Bool :=
  match hard l.answer with
  | .ok _ => false
  | .error _ => true

theorem Listing.runProbe_fst {α : Type} (l : Listing) (s : CensusSection) (key : Str)
    (parser : Str → List α) :
    (runProbe s key parser l.answer).1 = if l.fails then [] else parser l.shown := by
  unfold runProbe Listing.fails
  cases h : hard l.answer with
  | ok stdout => rw [l.faithful stdout h]; rfl
  | error e => rfl

/-! ## Snapshots -/

/-- censusParsers.ts:170. -/
structure SnapshotCapability where
  capable : Bool
  reason : Option Str
  deriving DecidableEq

/-- censusTypes.ts:97. -/
structure GuestEntry where
  vmid : Nat
  name : Str
  status : Str
  lock : Option Str
  snapshotCapable : Option SnapshotCapability
  deriving DecidableEq

structure CensusSections where
  storage : Option (List StorageInfo)
  containers : Option (List GuestEntry)
  vms : Option (List GuestEntry)
  deriving DecidableEq

/-- censusTypes.ts:168. -/
structure Truncation where
  sect : CensusSection
  reason : Str
  omitted : Nat
  deriving DecidableEq

structure CensusSnapshot where
  schemaVersion : Nat
  ts : Str
  sections : CensusSections
  errors : List CensusError
  truncations : List Truncation
  deriving DecidableEq

/-- One call of the tool, and the node it finds. -/
structure Call where
  ts : Str
  requested : List CensusSection
  /-- The section in which the time budget runs out. -/
  outOfTimeIn : Option CensusSection
  pctList : Listing
  qmList : Listing
  pvesmStatus : Listing
  /-- What the configuration of a guest was probed to come to, at the depths that do. -/
  capability : Nat → Option SnapshotCapability
  maxItemsPerSection : Nat
  saveSnapshot : Bool
  compareToPrevious : Bool

namespace Call

/-- The section is collected: it is requested, and the census gets past it. -/
def collects (c : Call) (s : CensusSection) : Bool :=
  c.requested.contains s && c.outOfTimeIn.all fun t => decide (s.order < t.order)

def budgetHit (c : Call) : Bool :=
  c.outOfTimeIn.isSome

/-- The containers that the node has. -/
def containersShown (c : Call) : List GuestEntry :=
  (parsePctList c.pctList.shown).map fun r =>
    ⟨r.vmid, r.name, r.status, some r.lock, c.capability r.vmid⟩

/-- The machines that the node has. -/
def vmsShown (c : Call) : List GuestEntry :=
  (parseQmList c.qmList.shown).map fun r => ⟨r.vmid, r.name, r.status, none, c.capability r.vmid⟩

/-- The storages that the node has. -/
def storageShown (c : Call) : List StorageInfo :=
  parsePvesmStatus c.pvesmStatus.shown

end Call

def censusSchemaVersion : Nat := 1

/-- A section, when it is collected, by its probe. -/
def collectSection {α β : Type} (c : Call) (s : CensusSection) (key : Str)
    (parser : Str → List α) (entry : α → β) (l : Listing) : Option (List β) × List CensusError :=
  if c.collects s then
    (some ((runProbe s key parser l.answer).1.map entry), (runProbe s key parser l.answer).2)
  else (none, [])

/-- describeHomelab.ts:253; the snapshot as it is assembled, without its drift. -/
def collect (c : Call) : CensusSnapshot :=
  let storage := collectSection c .storage "pvesm status".toList parsePvesmStatus id c.pvesmStatus
  let containers := collectSection c .containers "pct list".toList parsePctList
    (fun r => (⟨r.vmid, r.name, r.status, some r.lock, c.capability r.vmid⟩ : GuestEntry)) c.pctList
  let vms := collectSection c .vms "qm list".toList parseQmList
    (fun r => (⟨r.vmid, r.name, r.status, none, c.capability r.vmid⟩ : GuestEntry)) c.qmList
  { schemaVersion := censusSchemaVersion
    ts := c.ts
    sections := ⟨storage.1, containers.1, vms.1⟩
    errors := storage.2 ++ containers.2 ++ vms.2
    truncations := [] }

end HomelabMcp.Census
