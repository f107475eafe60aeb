import HomelabMcp.Backup.Eviction
import HomelabMcp.Census.Listings

/-!
# Drift and the stored snapshots (censusDrift.ts, censusInventory.ts, censusStore.ts)

Two snapshots are compared section by section. A new snapshot is compared with the last
one in the store as it was collected; it is stored in order and cut to so many items.
`localeCompare` compares strings by their collation keys, which are a parameter, and so
is the arithmetic of the storage usage, which is in floating point.

- `describeHomelabHandler`: one call, its report and the store it leaves.
-/

namespace HomelabMcp.Census

open SlashPath Text SortKey KeyedList Backup

/-- What the tool is set up with. -/
structure Setup where
  collationKey : Str → List Nat
  /-- The reason when the usage of a storage has changed by so many percent. -/
  usageChange : StorageInfo → StorageInfo → Option Str
  retentionCap : Nat
  /-- The size of a snapshot's file. -/
  fileSize : CensusSnapshot → Nat

/-! ## The differ -/

section
variable {α κ : Type} [DecidableEq κ] (key : α → κ)

/-- The keys of the new items. -/
def addedKeys (prev next : List α) : List κ :=
  (next.filter fun a => decide (key a ∉ prev.map key)).map key

/-- The keys of the items that are gone. -/
def removedKeys (prev next : List α) : List κ :=
  (prev.filter fun a => decide (key a ∉ next.map key)).map key

/-- `new Map(items.map(…)).get(k)`: the last item of a key counts. -/
def lastWith (k : κ) (items : List α) : Option α :=
  lookup key k items.reverse

end

structure GuestChange where
  vmid : Nat
  fromLabel : Str
  toLabel : Str
  field : Option Str
  deriving DecidableEq

structure GuestDrift where
  added : List Nat
  removed : List Nat
  changed : List GuestChange
  deriving DecidableEq

/-- censusDrift.ts:93. -/
def capabilityLabel (c : SnapshotCapability) : Str :=
  if c.capable then "capable".toList
  else "incapable".toList ++ match c.reason.filter fun r => decide (r ≠ []) with
    | some r => " (".toList ++ r ++ [')']
    | none => []

def statusChange (p g : GuestEntry) : List GuestChange :=
  if p.status ≠ g.status then [⟨g.vmid, p.status, g.status, none⟩] else []

/-- The capability counts when both snapshots have it. -/
def capabilityChange (p g : GuestEntry) : List GuestChange :=
  match p.snapshotCapable, g.snapshotCapable with
  | some pc, some gc =>
    if capabilityLabel pc ≠ capabilityLabel gc then
      [⟨g.vmid, capabilityLabel pc, capabilityLabel gc, some "snapshotCapable".toList⟩] else []
  | _, _ => []

def guestChanges (prev : List GuestEntry) (g : GuestEntry) : List GuestChange :=
  match lastWith GuestEntry.vmid g.vmid prev with
  | none => []
  | some p => statusChange p g ++ capabilityChange p g

/-- censusDrift.ts:52. -/
def diffGuests (prev next : List GuestEntry) (suppressRemoved : Bool) : GuestDrift where
  added := addedKeys GuestEntry.vmid prev next
  removed := if suppressRemoved then [] else removedKeys GuestEntry.vmid prev next
  changed := next.flatMap (guestChanges prev)

structure StorageDrift where
  added : List Str
  removed : List Str
  changed : List (Str × Str)
  deriving DecidableEq

def boolText (b : Bool) : Str :=
  if b then "true".toList else "false".toList

def storageChanges (setup : Setup) (prev : List StorageInfo) (s : StorageInfo) :
    List (Str × Str) :=
  match lastWith StorageInfo.name s.name prev with
  | none => []
  | some p =>
    if p.active ≠ s.active then
      [(s.name, "active ".toList ++ boolText p.active ++ " -> ".toList ++ boolText s.active)]
    else if 0 < s.totalBytes then ((setup.usageChange p s).toList.map fun r => (s.name, r))
    else []

/-- censusDrift.ts:97. -/
def diffStorage (setup : Setup) (prev next : List StorageInfo) : StorageDrift where
  added := addedKeys StorageInfo.name prev next
  removed := removedKeys StorageInfo.name prev next
  changed := next.flatMap (storageChanges setup prev)

structure DriftReport where
  containers : GuestDrift
  vms : GuestDrift
  storage : StorageDrift
  comparedTo : Str
  schemaMismatch : Bool
  deriving DecidableEq

def sectionTruncated (snap : CensusSnapshot) (s : CensusSection) : Bool :=
  snap.truncations.any fun t => t.sect == s

/-- The sub-diff of a section that both snapshots have. -/
def bothObserved {α β : Type} (empty : β) (diff : List α → List α → β) :
    Option (List α) → Option (List α) → β
  | some prev, some next => diff prev next
  | _, _ => empty

/-- censusDrift.ts:154. -/
def diffSnapshots (setup : Setup) (prev next : CensusSnapshot) : DriftReport :=
  let noGuests : GuestDrift := ⟨[], [], []⟩
  let noStorage : StorageDrift := ⟨[], [], []⟩
  if prev.schemaVersion ≠ next.schemaVersion then
    ⟨noGuests, noGuests, noStorage, prev.ts, true⟩
  else
    { containers := bothObserved noGuests
        (fun p n => diffGuests p n (sectionTruncated next .containers))
        prev.sections.containers next.sections.containers
      vms := bothObserved noGuests (fun p n => diffGuests p n (sectionTruncated next .vms))
        prev.sections.vms next.sections.vms
      storage := bothObserved noStorage (diffStorage setup) prev.sections.storage
        next.sections.storage
      comparedTo := prev.ts
      schemaMismatch := false }

/-! ## The inventory -/

/-- The first items of a section, and what was cut off. -/
def capSection {α : Type} (cap : Nat) (s : CensusSection) (items : Option (List α)) :
    Option (List α) × List Truncation :=
  match items with
  | none => (none, [])
  | some l =>
    if cap < l.length then
      (some (l.take cap), [⟨s, "more than ".toList ++ numeral cap ++ " items; kept first ".toList ++
        numeral cap, l.length - cap⟩])
    else (some l, [])

/-- Guests are ordered by their ids. -/
def vmidKey (g : GuestEntry) : List Nat :=
  [g.vmid]

/-- Storages are ordered by their names. -/
def nameKey (setup : Setup) (s : StorageInfo) : List Nat :=
  setup.collationKey s.name

/-- censusInventory.ts:125. -/
def finalizeInventory (setup : Setup) (maxItemsPerSection : Nat) (raw : CensusSnapshot) :
    CensusSnapshot :=
  let containers := capSection maxItemsPerSection .containers
    (raw.sections.containers.map (sortOn vmidKey))
  let vms := capSection maxItemsPerSection .vms (raw.sections.vms.map (sortOn vmidKey))
  let storage := capSection maxItemsPerSection .storage
    (raw.sections.storage.map (sortOn (nameKey setup)))
  { raw with
    sections := ⟨storage.1, containers.1, vms.1⟩
    truncations := raw.truncations ++ (containers.2 ++ vms.2 ++ storage.2) }

/-! ## The store -/

/-- The files of the census directory by their names, without the extension. -/
abbrev CensusStore := List (Str × CensusSnapshot)

/-- The name of a snapshot's file. -/
def fileName (ts : Str) : Str :=
  ts.map fun c => if c = ':' ∨ c = '.' then '-' else c

/-- censusStore.ts:25; the newest come first. -/
def CensusStore.listSnapshots (setup : Setup) (store : CensusStore) : CensusStore :=
  sortDescOn (fun f => setup.collationKey f.1) store

/-- censusStore.ts:35. -/
def CensusStore.loadLatest (setup : Setup) (store : CensusStore) : Option CensusSnapshot :=
  (store.listSnapshots setup).head?.map Prod.snd

/-- The entry of a file for the eviction planner; all have one extension. -/
def censusEntry (setup : Setup) (f : Str × CensusSnapshot) : BackupEntry where
  path := ⟨"census".toList, f.1, .sidecar⟩
  fileKey := "census".toList
  timestamp := f.1
  sizeBytes := setup.fileSize f.2

/-- censusStore.ts:58. -/
def CensusStore.runRetention (setup : Setup) (store : CensusStore) : CensusStore :=
  let toDelete := (planEviction (store.map (censusEntry setup)) setup.retentionCap
    (2 ^ 53 - 1)).toDelete
  store.filter fun f => decide ((censusEntry setup f).path ∉ toDelete.map BackupEntry.path)

/-- censusStore.ts:50. -/
def CensusStore.save (setup : Setup) (store : CensusStore) (snapshot : CensusSnapshot) :
    CensusStore :=
  CensusStore.runRetention setup (upsert Prod.fst (fileName snapshot.ts, snapshot) store)

/-! ## The tool -/

/-- The snapshot that a call saves. -/
def snapshotOf (setup : Setup) (c : Call) : CensusSnapshot :=
  finalizeInventory setup c.maxItemsPerSection (collect c)

/-- describeHomelab.ts:426; the drift report, and the store afterwards. -/
def describeHomelabHandler (setup : Setup) (store : CensusStore) (c : Call) :
    Option DriftReport × CensusStore :=
  let prev := if c.compareToPrevious then store.loadLatest setup else none
  (prev.map fun p => diffSnapshots setup p (collect c),
    if c.saveSnapshot && !c.budgetHit then store.save setup (snapshotOf setup c) else store)

/-- The store after some calls, from an empty directory. -/
def storeAfter (setup : Setup) (run : List Call) : CensusStore :=
  run.foldl (fun store c => (describeHomelabHandler setup store c).2) []

end HomelabMcp.Census
