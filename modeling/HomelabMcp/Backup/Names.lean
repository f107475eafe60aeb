import HomelabMcp.Lib.Instant
import HomelabMcp.Integrity.Folding

/-!
# Targets and the files of the backup store (store.ts)

A version of a target is a pair of files `<key>/<stamp>.gz` and
`<key>/<stamp>.meta`, or only the second when no content is stored. The key is a
truncated digest of the target's descriptor, the stamp is the clock's ISO text
with the characters `:` and `.` replaced.

- `stamp_le`: stamps sort as the instants they come from.
- `dateTime_stamp`: a stamp is not a date that `new Date` can read.
-/

namespace HomelabMcp.Backup

open SortKey Text SlashPath Iso Integrity

inductive BackupTargetKind
  | host
  | pct
  | qm
  | docker
  deriving DecidableEq, Repr

/-- store.ts:22. -/
structure BackupTarget where
  kind : BackupTargetKind
  vmid : Option Nat
  container : Option Str
  remotePath : Str
  deriving DecidableEq

namespace BackupTarget

/-- A file of the node itself. -/
def onHost (remotePath : Str) : BackupTarget :=
  ⟨.host, none, none, remotePath⟩

end BackupTarget

/-- How a template literal prints a number that may be undefined. -/
def vmidText (vmid : Option Nat) : Str :=
  (vmid.map numeral).getD "undefined".toList

/-- store.ts:30. -/
def targetKeyString (t : BackupTarget) : Str :=
  match t.kind with
  | .pct => "pct:".toList ++ vmidText t.vmid ++ ':' :: t.remotePath
  | .qm => "qm:".toList ++ vmidText t.vmid ++ ':' :: t.remotePath
  | .docker =>
    "docker:".toList ++ vmidText t.vmid ++
      ':' :: (t.container.getD "undefined".toList ++ ':' :: t.remotePath)
  | .host => t.remotePath

/-- store.ts:46; `none` where it throws. -/
def targetFromInput (remotePath : Str) (vmid : Option Nat) (container : Option Str) :
    Option BackupTarget :=
  match container, vmid with
  | some _, none => none
  | some c, some v => some ⟨.docker, some v, some c, remotePath⟩
  | none, some v => some ⟨.pct, some v, none, remotePath⟩
  | none, none => some (.onHost remotePath)

/-- store.ts:85. -/
def fileKey (sha256 : Bytes → Bytes) (target : BackupTarget) : Str :=
  (hashHex (sha256 (Utf8.encode (targetKeyString target)))).take 16

/-! ## Files -/

inductive Ext
  | gz
  | sidecar
  deriving DecidableEq, Repr

def Ext.text : Ext → Str
  | .gz => ".gz".toList
  | .sidecar => ".meta".toList

/-- A file of the store, named relative to its directory. -/
structure BackupPath where
  key : Str
  stamp : Str
  ext : Ext
  deriving DecidableEq

namespace BackupPath

/-- `path.join(baseDir, key, stamp + ext)`. -/
def text (baseDir : Str) (p : BackupPath) : Str :=
  baseDir ++ '/' :: (p.key ++ '/' :: (p.stamp ++ p.ext.text))

/-- The other file of the version. -/
def withExt (p : BackupPath) (ext : Ext) : BackupPath :=
  { p with ext }

/-- Directories are listed by name, and the files in each of them too. -/
def listingKey (p : BackupPath) : List Nat :=
  textKey p.key ++ 0 :: textKey (p.stamp ++ p.ext.text)

end BackupPath

/-! ## Stamps -/

/-- `new Date().toISOString().replace(/[:.]/g, "-")` (store.ts:204). -/
def stamp (now : Instant) : Str :=
  (toISOString now).map fun c => if c = ':' ∨ c = '.' then '-' else c

def stampLayout : List (Nat × Char) :=
  [(4, '-'), (2, '-'), (2, 'T'), (2, '-'), (2, '-'), (2, '-'), (3, 'Z')]

theorem map_fixedWidth (f : Char → Char) (hf : ∀ c, c.isDigit → f c = c)
    (spec : List (Nat × Char)) (l : List Nat) :
    (fixedWidth spec l).map f = fixedWidth (spec.map fun e => (e.1, f e.2)) l := by
  induction spec generalizing l with
  | nil => cases l <;> rfl
  | cons e spec ih =>
    obtain ⟨w, c⟩ := e
    cases l with
    | nil => rfl
    | cons n l =>
      have hpad : (pad w n).map f = pad w n :=
        (List.map_congr_left fun d hd => hf d (isDigit_of_mem_pad hd)).trans (List.map_id _)
      simp only [fixedWidth, List.map_append, List.map_cons, hpad, ih]

theorem stamp_eq (now : Instant) : stamp now = fixedWidth stampLayout now.fields := by
  unfold stamp toISOString
  rw [map_fixedWidth _ ?_]
  · rfl
  · rintro c hc
    rw [if_neg]
    rintro (rfl | rfl) <;> cases hc

/-- Stamps sort as the instants they come from. -/
theorem stamp_le (i j : Instant) :
    lexLe (textKey (stamp i)) (textKey (stamp j)) = lexLe i.fields j.fields := by
  rw [stamp_eq, stamp_eq]
  exact fixedWidth_le (fits_fields rfl i) (fits_fields rfl j)

theorem stamp_injective : Function.Injective stamp := by
  intro i j h
  have hij := stamp_le i j
  have hji := stamp_le j i
  rw [h] at hij hji
  have hrefl : lexLe (textKey (stamp j)) (textKey (stamp j)) = true := by
    rcases lexLe_total (textKey (stamp j)) (textKey (stamp j)) with h | h <;> exact h
  exact Instant.fields_injective (lexLe_antisymm (hij ▸ hrefl) (hji ▸ hrefl))

/-- A stamp has no colons, so it is an invalid date. -/
@[simp] theorem dateTime_stamp (now : Instant) : dateTime (stamp now) = none := by
  have hfits : Fits stampLayout now.fields := fits_fields rfl now
  have hne : isoLayout ≠ stampLayout := by decide
  rw [stamp_eq, dateTime]
  refine readFields_eq_none ?_ hne hfits
  rfl

end HomelabMcp.Backup
