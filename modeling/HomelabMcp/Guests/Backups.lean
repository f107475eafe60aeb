import HomelabMcp.Guests.Snapshots
import HomelabMcp.Lib.Json

/-!
# vzdump archive guard primitives (backups.ts)

The server knows its archives by the `mcp-` at the head of their notes. This module
has the notes, the two retention planners and the checks before a backup.
`String.prototype.localeCompare` compares strings by their collation keys, which
are a parameter: nothing is assumed of them.

- `mem_planPostCreateEviction`, `length_managedLeft_le`, `newestFirst_of_evicted`: the
  new archive stays, how many stay with it, and that they are the newest.
-/

namespace HomelabMcp.Guests

open SlashPath Text SortKey Integrity Shell

/-- `GuestType` of nodeOps.ts:17. -/
inductive NodeGuestType
  | qemu
  | lxc
  deriving DecidableEq, Repr

def NodeGuestType.text : NodeGuestType → Str
  | .qemu => "qemu".toList
  | .lxc => "lxc".toList

inductive BackupMode
  | snapshot
  | suspend
  | stop
  deriving DecidableEq, Repr

def BackupMode.text : BackupMode → Str
  | .snapshot => "snapshot".toList
  | .suspend => "suspend".toList
  | .stop => "stop".toList

/-- nodeOps.ts:75. -/
structure BackupArchive where
  volid : Str
  vmid : Nat
  ctime : Option Int
  sizeBytes : Option Nat
  notes : Option Str
  format : Option Str
  deriving DecidableEq

/-- backups.ts:23. -/
structure ArchiveInfo extends BackupArchive where
  mcpManaged : Bool
  deriving DecidableEq

/-- `MCP_BACKUP_PREFIX`. -/
def mcpBackupPrefix : Str := "mcp-".toList

/-- backups.ts:38. -/
def isMcpArchive (notes : Option Str) : Bool :=
  match notes with
  | none => false
  | some text => mcpBackupPrefix.isPrefixOf (text.dropWhile isSpace)

/-- `toInfo` of backupTools.ts:180. -/
def toInfo (a : BackupArchive) : ArchiveInfo :=
  { a with mcpManaged := isMcpArchive a.notes }

/-- backups.ts:49. -/
def generateBackupNote (now : Instant) (note : Option Str) : Str :=
  let base := mcpBackupPrefix ++ compactStamp now
  match note.map trim with
  | none | some [] => base
  | some extra => base ++ " — ".toList ++ extra

/-- The sort key of backups.ts:70: the time, when the listing has it. -/
def ArchiveInfo.at (a : ArchiveInfo) : Int :=
  a.ctime.getD 0

section
variable (collation : Str → List Nat)

/-- The comparator of backups.ts:69: newest first, then the later volume id. -/
def newestFirst (a b : ArchiveInfo) : Prop :=
  b.at < a.at ∨ (a.at = b.at ∧ lexLe (collation b.volid) (collation a.volid) = true)

instance : DecidableRel (newestFirst collation) := fun _ _ =>
  inferInstanceAs (Decidable (_ ∨ (_ ∧ _)))

instance : Std.Total (newestFirst collation) where
  total a b := by
    rcases lt_trichotomy a.at b.at with h | h | h
    · exact Or.inr (Or.inl h)
    · exact (lexLe_total (collation b.volid) (collation a.volid)).imp
        (fun hle => Or.inr ⟨h, hle⟩) fun hle => Or.inr ⟨h.symm, hle⟩
    · exact Or.inl (Or.inl h)

instance : IsTrans ArchiveInfo (newestFirst collation) where
  trans a b c := by
    rintro (hab | ⟨hab, hle⟩) (hbc | ⟨hbc, hle'⟩)
    · exact Or.inl (hbc.trans hab)
    · exact Or.inl (hbc ▸ hab)
    · exact Or.inl (hab ▸ hbc)
    · exact Or.inr ⟨hab.trans hbc, lexLe_trans hle' hle⟩

/-- backups.ts:67. -/
def planArchiveEviction (archives : List ArchiveInfo) (cap : Int) (incoming : Int) : List Str :=
  let mcp := archives.filter fun a => a.mcpManaged
  let sorted := mcp.insertionSort (newestFirst collation)
  let allowed := max 0 (cap - incoming)
  (sorted.drop allowed.toNat).map fun a => a.volid

/-- backups.ts:86: the new archive is no candidate, and a cap below one counts as
one. -/
def planPostCreateEviction (archives : List ArchiveInfo) (newVolid : Str) (cap : Int) : List Str :=
  let others := archives.filter fun a => a.volid != newVolid
  planArchiveEviction collation others (max 1 cap) 1

variable {collation} {archives : List ArchiveInfo} {newVolid : Str} {cap : Int}

/-- The server's archives besides the new one, newest first. -/
def rivals (collation : Str → List Nat) (archives : List ArchiveInfo) (newVolid : Str) :
    List ArchiveInfo :=
  ((archives.filter fun a => a.volid != newVolid).filter fun a => a.mcpManaged).insertionSort
    (newestFirst collation)

theorem mem_rivals {a : ArchiveInfo} : a ∈ rivals collation archives newVolid ↔
    a ∈ archives ∧ a.volid ≠ newVolid ∧ a.mcpManaged = true := by
  unfold rivals
  rw [List.mem_insertionSort, List.mem_filter, List.mem_filter]
  simp [and_assoc]

theorem planPostCreateEviction_eq : planPostCreateEviction collation archives newVolid cap =
    ((rivals collation archives newVolid).drop (max 1 cap - 1).toNat).map fun a => a.volid := by
  show List.map _ (List.drop (max 0 (max 1 cap - 1)).toNat _) = _
  rw [show (max 0 (max 1 cap - 1)).toNat = (max 1 cap - 1).toNat by omega]
  rfl

/-- What is evicted is the server's, and is not the new archive. -/
theorem mem_planPostCreateEviction {v : Str}
    (h : v ∈ planPostCreateEviction collation archives newVolid cap) :
    v ≠ newVolid ∧ ∃ a ∈ archives, a.volid = v ∧ a.mcpManaged = true := by
  rw [planPostCreateEviction_eq] at h
  obtain ⟨a, ha, rfl⟩ := List.mem_map.mp h
  obtain ⟨hmem, hne, hmcp⟩ := mem_rivals.mp (List.mem_of_mem_drop ha)
  exact ⟨hne, a, hmem, rfl, hmcp⟩

/-- The server's archives that a list of evicted volumes leaves. -/
def managedLeft (archives : List ArchiveInfo) (evicted : List Str) : List ArchiveInfo :=
  archives.filter fun a => a.mcpManaged && decide (a.volid ∉ evicted)

/-- A rival that stays is one of the newest. -/
theorem mem_take_of_left {a : ArchiveInfo}
    (ha : a ∈ managedLeft archives (planPostCreateEviction collation archives newVolid cap))
    (hne : a.volid ≠ newVolid) :
    a ∈ (rivals collation archives newVolid).take (max 1 cap - 1).toNat := by
  obtain ⟨hmem, hleft⟩ := List.mem_filter.mp ha
  rw [Bool.and_eq_true, decide_eq_true_eq, planPostCreateEviction_eq] at hleft
  have hrival : a ∈ rivals collation archives newVolid := mem_rivals.mpr ⟨hmem, hne, hleft.1⟩
  rw [← List.take_append_drop (max 1 cap - 1).toNat (rivals collation archives newVolid)] at hrival
  rcases List.mem_append.mp hrival with h | h
  · exact h
  · exact absurd (List.mem_map_of_mem h) hleft.2

/-- No evicted archive is newer than a rival that stays. -/
theorem newestFirst_of_evicted (hnd : (archives.map fun a => a.volid).Nodup)
    {a b : ArchiveInfo} (hb : b ∈ archives)
    (ha : a ∈ managedLeft archives (planPostCreateEviction collation archives newVolid cap))
    (hne : a.volid ≠ newVolid)
    (hgone : b.volid ∈ planPostCreateEviction collation archives newVolid cap) :
    newestFirst collation a b := by
  have htake := mem_take_of_left ha hne
  rw [planPostCreateEviction_eq] at hgone
  obtain ⟨b', hb', hvolid⟩ := List.mem_map.mp hgone
  have hsame : b' = b :=
    List.inj_on_of_nodup_map hnd (mem_rivals.mp (List.mem_of_mem_drop hb')).1 hb hvolid
  have hsorted := List.pairwise_insertionSort (newestFirst collation)
    ((archives.filter fun a => a.volid != newVolid).filter fun a => a.mcpManaged)
  show newestFirst collation a b
  rw [← hsame]
  replace hsorted : (rivals collation archives newVolid).Pairwise (newestFirst collation) := hsorted
  rw [← List.take_append_drop (max 1 cap - 1).toNat (rivals collation archives newVolid),
    List.pairwise_append] at hsorted
  exact hsorted.2.2 a htake b' hb'

/-- With the new one, at most `max 1 cap` of the server's archives stay. -/
theorem length_managedLeft_le (hnd : (archives.map fun a => a.volid).Nodup) :
    ((managedLeft archives (planPostCreateEviction collation archives newVolid cap)).length : Int) ≤
      max 1 cap := by
  have hsub : ((managedLeft archives
      (planPostCreateEviction collation archives newVolid cap)).map fun a => a.volid) ⊆
      newVolid :: ((rivals collation archives newVolid).take (max 1 cap - 1).toNat).map
        fun a => a.volid := by
    intro v hv
    obtain ⟨a, ha, rfl⟩ := List.mem_map.mp hv
    by_cases hne : a.volid = newVolid
    · exact hne ▸ List.mem_cons_self
    · exact List.mem_cons_of_mem _ (List.mem_map_of_mem (mem_take_of_left ha hne))
  have hleft : ((managedLeft archives
      (planPostCreateEviction collation archives newVolid cap)).map fun a => a.volid).Nodup :=
    hnd.sublist (List.filter_sublist.map _)
  have hlen := (List.subperm_of_subset hleft hsub).length_le
  rw [List.length_map, List.length_cons, List.length_map, List.length_take] at hlen
  omega

end

/-! ## Room for one more archive -/

inductive HeadroomVerdict
  | ok
  | insufficient
  | unknown
  deriving DecidableEq, Repr

structure Headroom where
  verdict : HeadroomVerdict
  estimateBytes : Option Nat
  availBytes : Option Nat
  deriving DecidableEq

/-- The sort of backups.ts:104, which only looks at the time. -/
def laterFirst (a b : ArchiveInfo) : Prop := b.at ≤ a.at

instance : DecidableRel laterFirst := fun a b => inferInstanceAs (Decidable (b.at ≤ a.at))

/-- backups.ts:98; a storage figure that is not finite counts as none. -/
def checkBackupHeadroom (archives : List ArchiveInfo) (availBytes : Option Nat) : Headroom :=
  let sized := (archives.filter fun a => decide (0 < a.sizeBytes.getD 0)).insertionSort laterFirst
  match sized.head?.bind (fun a => a.sizeBytes), availBytes with
  | some estimate, some avail =>
    let needed := (estimate * 11 + 9) / 10
    ⟨if needed ≤ avail then .ok else .insufficient, some estimate, some avail⟩
  | estimate, _ => ⟨.unknown, estimate, none⟩

/-- `/content.?type|storage/i`. -/
def mentionsStorage (exitstatus : Str) : Bool :=
  let s := toLowerCase exitstatus
  includes s "storage".toList || includes s "contenttype".toList ||
    s.tails.any fun t => "content".toList.isPrefixOf t &&
      (((t.drop 7).head?.map fun c => !isLineTerminator c).getD false) &&
      "type".toList.isPrefixOf (t.drop 8)

/-- backups.ts:117. -/
def backupFailureHint (exitstatus storage : Str) : Option Str :=
  if mentionsStorage exitstatus then
    some ("Storage ".toList ++ doubleQuote :: storage ++ doubleQuote ::
      (" must have the \x60backup\x60 content type — pass storage:\"<name>\" or set " ++
        "NODE_BACKUP_STORAGE (the default \x60local\x60 usually cannot hold backups).").toList)
  else none

/-- `toFixed(1)` of the quotient of two integers, which rounds half up. -/
def fixed1 (n d : Nat) : Str :=
  let tenths := (20 * n + d) / (2 * d)
  numeral (tenths / 10) ++ '.' :: numeral (tenths % 10)

/-- backups.ts:126. -/
def formatBytes (n : Nat) : Str :=
  if n < 1024 then numeral n ++ " B".toList
  else if n < 1024 ^ 2 then fixed1 n 1024 ++ " KiB".toList
  else if n < 1024 ^ 3 then fixed1 n (1024 ^ 2) ++ " MiB".toList
  else if n < 1024 ^ 4 then fixed1 n (1024 ^ 3) ++ " GiB".toList
  else fixed1 n (1024 ^ 4) ++ " TiB".toList

example : formatBytes 1536 = "1.5 KiB".toList := by decide

/-! ## Charsets -/

/-- `[a-zA-Z0-9][a-zA-Z0-9._-]*`, and `/` besides where `slash` is set. -/
def isDottedName (slash : Bool) (s : Str) : Bool :=
  (s.head?.map Char.isAlphanum).getD false &&
    s.all fun c => c.isAlphanum || c == '.' || c == '_' || c == '-' || (slash && c == '/')

/-- `STORAGE_RE.test`. -/
def isStorageName (storage : Str) : Bool :=
  isDottedName false storage

/-- backups.ts:178, the error when it throws. -/
def storageNameError (storage : Str) : Str :=
  "Invalid storage name: ".toList ++ Json.quote storage ++
    " (expected /^[a-zA-Z0-9][a-zA-Z0-9._-]*$/).".toList

/-- `VOLID_RE.test`. -/
def isVolid (volid : Str) : Bool :=
  let storage := volid.takeWhile fun c => c != ':'
  let rest := volid.drop storage.length
  isDottedName false storage && ":backup/".toList.isPrefixOf rest && isDottedName true (rest.drop 8)

def volidError (volid : Str) : Str :=
  "Invalid backup volid: ".toList ++ Json.quote volid ++
    " (expected \"<storage>:backup/<file>\").".toList

/-- backups.ts:204. -/
def volidStorage (volid : Str) : Except Str Str :=
  if isVolid volid then .ok (volid.takeWhile fun c => c != ':') else .error (volidError volid)

end HomelabMcp.Guests
