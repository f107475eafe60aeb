import HomelabMcp.Guests.Snapshots

/-!
# Why a snapshot was refused (snapshots.ts:141, censusParsers.ts:154)

Proxmox refuses to snapshot a guest with a passed-through device, a bind mount or
a directory as its root storage. `enrichSnapshotFailure` names the likely cause
from the guest's configuration.
-/

namespace HomelabMcp.Guests

open SlashPath Text Integrity

/-- A configuration: its keys in the order of their first lines. -/
abbrev GuestConfig := List (Str × Str)

/-- One line of censusParsers.ts:156. -/
def parseConfigLine (raw : Str) : Option (Str × Str) :=
  let line := if raw.getLast? = some carriageReturn then raw.dropLast else raw
  let key := line.takeWhile fun c => c != ':'
  -- A line without a colon, or with one in front, has no key.
  if key = [] ∨ key.length = line.length ∨ trim key = [] then none
  else some (trim key, trim (line.drop (key.length + 1)))

/-- censusParsers.ts:154. -/
def parseGuestConfig (output : Str) : GuestConfig :=
  KeyedList.upsertAll Prod.fst ((lines output).filterMap parseConfigLine) []

/-- A key of the form `<stem><number>`. -/
def isNumbered (stem key : Str) : Bool :=
  stem.isPrefixOf key && key.length != stem.length && (key.drop stem.length).all Char.isDigit

/-- A path under `/dev/` at the head of a word: `(^|\s)/dev/`. -/
def mentionsDevice : Str → Bool
  | [] => false
  | c :: s => (isSpace c && "/dev/".toList.isPrefixOf s) || mentionsDevice s

/-- censusParsers.ts:183. -/
def hasDevicePassthrough (config : GuestConfig) : Bool :=
  config.any fun (key, value) =>
    isNumbered "dev".toList key ||
    "lxc.cgroup.devices.".toList.isPrefixOf key ||
    "lxc.cgroup2.devices.".toList.isPrefixOf key ||
    isNumbered "hostpci".toList key ||
    (key == "lxc.mount.entry".toList &&
      ("/dev/".toList.isPrefixOf value || mentionsDevice value))

/-- What stands before the first comma. -/
def beforeComma (value : Str) : Str :=
  value.takeWhile fun c => c != ','

def isDiskKey (key : Str) : Bool :=
  ["scsi", "virtio", "sata", "ide"].any fun stem => isNumbered stem.toList key

/-- censusParsers.ts:199. -/
def rootfsStorageName (config : GuestConfig) : Option Str :=
  let disk := config.find? fun (key, value) =>
    isDiskKey key && !(includes value "media=cdrom".toList || value == "none".toList ||
      includes (toLowerCase value) "cloudinit".toList)
  let rootfs := (KeyedList.lookup Prod.fst "rootfs".toList config).or disk
  rootfs.bind fun (_, value) =>
    let first := beforeComma value
    let name := first.takeWhile fun c => c != ':'
    if name = [] ∨ name.length = first.length then none else some (trim name)

/-- snapshots.ts:153. -/
structure BindMount where
  key : Str
  hostPath : Str
  mountPoint : Option Str
  deriving DecidableEq

/-- snapshots.ts:165. -/
def detectBindMounts (config : GuestConfig) : List BindMount :=
  config.filterMap fun (key, value) =>
    let first := trim (beforeComma value)
    if isNumbered "mp".toList key ∧ first.head? = some '/' then
      let mp := (List.splitOn ',' value).find? fun s =>
        "mp=".toList.isPrefixOf s && decide (3 < s.length)
      some ⟨key, first, mp.map fun s => s.drop 3⟩
    else none

/-- snapshots.ts:147. -/
def isSnapshotFeatureError (stderr : Str) : Bool :=
  ["feature is not available", "does not support snapshot", "snapshot feature",
    "not supported"].any fun t => includes (toLowerCase stderr) t.toList

def BindMount.reason (b : BindMount) : Str :=
  "bind mount ".toList ++ b.key ++ " (".toList ++ b.hostPath ++
    ((b.mountPoint.map fun m => " → ".toList ++ m).getD []) ++
    ") — host directories are outside snapshot-capable storage".toList

/-- The causes that snapshots.ts:203 names. -/
def failureReasons (type : GuestType) (configText : Str) : List Str :=
  let config := parseGuestConfig configText
  let passthrough := if hasDevicePassthrough config then
    ["a passed-through device (snapshots require none)".toList] else []
  let mounts := if type = .pct then (detectBindMounts config).map BindMount.reason else []
  if passthrough ++ mounts ≠ [] then passthrough ++ mounts
  else match rootfsStorageName config with
    | some (c :: storage) =>
      ["the root disk's backing storage (".toList ++ quoteChar :: c :: storage ++ quoteChar ::
        ") likely does not support snapshots (e.g. a ".toList ++ quoteChar :: "dir".toList ++
        quoteChar :: " store)".toList]
    | _ =>
      ["the guest's backing storage likely does not support snapshots (e.g. a ".toList ++
        quoteChar :: "dir".toList ++ quoteChar :: " store)".toList]

/-- `reasons.join("; ")`. -/
def joinReasons : List Str → Str
  | [] => []
  | [r] => r
  | r :: rs => r ++ "; ".toList ++ joinReasons rs

/-- snapshots.ts:193. -/
def enrichSnapshotFailure (stderr : Str) (type : GuestType) (configText : Option Str) : Str :=
  let base := "snapshot create failed: ".toList ++ trim stderr
  if !isSnapshotFeatureError stderr then base
  else
    let reasons := (configText.map (failureReasons type)).getD []
    let why := if reasons = [] then [] else " Likely cause: ".toList ++ joinReasons reasons ++ ['.']
    base ++ '.' :: why ++ (" This guest cannot be snapshotted as configured. Use guest_backup " ++
      "(vzdump) for a full-archive rollback point instead — it is the supported fallback for " ++
      "snapshot-incapable guests (GPU passthrough, bind mounts, or dir storage).").toList

/-- Whatever the cause, the message starts with what the tool said. -/
theorem prefix_enrichSnapshotFailure (stderr : Str) (type : GuestType)
    (configText : Option Str) :
    "snapshot create failed: ".toList ++ trim stderr <+:
      enrichSnapshotFailure stderr type configText := by
  unfold enrichSnapshotFailure
  dsimp only
  split
  · exact List.prefix_refl _
  · rw [List.append_assoc]
    exact List.prefix_append _ _

end HomelabMcp.Guests
