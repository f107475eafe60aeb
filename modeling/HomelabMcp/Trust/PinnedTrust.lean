import HomelabMcp.Lib.KeyedList
import HomelabMcp.Lib.Text

/-!
# Pinned trust (pinnedTrust.ts, hostKey.ts, tlsPin.ts)

The decision about a presented key, and the file in which the keys of first use are kept.
The verifiers of the SSH host key and of the API certificate do the same with it, each
under its own labels, without giving way to another connection.

- `verify`: what a connection is told, and the file it leaves.
-/

namespace HomelabMcp.Trust

open SlashPath Text KeyedList

/-! ## Fingerprints -/

def fingerprintTag : Str := "SHA256:".toList

def isBase64 (c : Char) : Bool :=
  c.isAlphanum || c == '+' || c == '/'

/-- `replace(/=+$/, "")`. -/
def dropPadding (s : Str) : Str :=
  (s.reverse.dropWhile (· == '=')).reverse

/-- The first match of `/SHA256:([A-Za-z0-9+\/]+=*)/i`, without the padding of its group. -/
def taggedDigest (s : Str) : Option Str :=
  s.tails.findSome? fun t =>
    if (t.take 7).map Char.toUpper = fingerprintTag ∧ (t.drop 7).takeWhile isBase64 ≠ [] then
      some ((t.drop 7).takeWhile isBase64)
    else none

/-- pinnedTrust.ts:32. -/
def normalizeFingerprint (input : Str) : Str :=
  match taggedDigest (trim input) with
  | some digest => fingerprintTag ++ digest
  | none => fingerprintTag ++ dropPadding (trim input)

/-! ## The decision -/

structure PinLabels where
  pin : Str
  tofu : Str

inductive PinDecision
  | accept (reason : Str) (persist : Option (Str × Str))
  | refuse (reason : Str)
  deriving DecidableEq

/-- What a store answers for a key. An object inherits properties that are no strings. -/
inductive Stored
  | undefined
  | text (fingerprint : Str)
  | notString
  deriving DecidableEq

/-- pinnedTrust.ts:50. -/
def mismatch (sourceLabel expected presented : Str) : Str :=
  "key MISMATCH against ".toList ++ sourceLabel ++ ".\n".toList ++
    "  expected:  ".toList ++ expected ++ "\n".toList ++
    "  presented: ".toList ++ presented ++ "\n".toList ++
    ("Connection refused (fail-closed). If the key genuinely changed, verify the " ++
      "new key out of band, then update the pin or remove the stale entry from the " ++
      "trust store and reconnect.").toList

/-- A string that is set and not blank. -/
def given (s : Option Str) : Option Str :=
  s.filter fun t => decide (trim t ≠ [])

def firstUse (presented key : Str) : PinDecision :=
  .accept "pinned on first use (TOFU) — verify out of band".toList (some (key, presented))

/-- The recorded fingerprint; the error is that of `stored.trim`, which is no function. -/
def Stored.given : Stored → Except Str (Option Str)
  | .undefined => .ok none
  | .text fingerprint => .ok (Trust.given (some fingerprint))
  | .notString => .error "stored.trim is not a function".toList

/-- pinnedTrust.ts:64. -/
def decidePin (presented : Str) (pinned : Option Str) (stored : Stored) (key : Str)
    (labels : PinLabels) : Except Str PinDecision :=
  match given pinned with
  | some pin =>
    let want := normalizeFingerprint pin
    .ok (if presented = want then .accept "matches pinned fingerprint".toList none
      else .refuse (mismatch labels.pin want presented))
  | none =>
    match stored.given with
    | .error e => .error e
    | .ok none => .ok (firstUse presented key)
    | .ok (some recorded) =>
      .ok (if presented = recorded then
          .accept "matches trust-on-first-use fingerprint".toList none
        else .refuse (mismatch labels.tofu recorded presented))

/-! ## The store -/

/-- The recorded fingerprints by their keys. -/
abbrev PinRecords := List (Str × Str)

/-- The file, unless it is missing or cannot be parsed. -/
abbrev PinFile := Option PinRecords

/-- The properties that every object inherits. -/
def inheritedNames : List Str :=
  ["constructor", "__proto__", "hasOwnProperty", "isPrototypeOf", "propertyIsEnumerable",
    "toLocaleString", "toString", "valueOf", "__defineGetter__", "__defineSetter__",
    "__lookupGetter__", "__lookupSetter__"].map String.toList

/-- A read of the file, which may fail. -/
def readFile (file : PinFile) (fails : Bool) : PinFile :=
  if fails then none else file

/-- pinnedTrust.ts:104. -/
def PinRecords.get (read : PinFile) (key : Str) : Stored :=
  match read with
  | none => .undefined
  | some data =>
    match lookup Prod.fst key data with
    | some (_, fingerprint) => .text fingerprint
    | none => if key ∈ inheritedNames then .notString else .undefined

/-- `data[key] = fingerprint`; the inherited `__proto__` takes no string. -/
def PinRecords.put (data : PinRecords) (key fingerprint : Str) : PinRecords :=
  if key = "__proto__".toList ∧ (lookup Prod.fst key data).isNone then data
  else upsert Prod.fst (key, fingerprint) data

/-- pinnedTrust.ts:114; what is written. -/
def PinRecords.set (read : PinFile) (key fingerprint : Str) : PinFile :=
  some (PinRecords.put (read.getD []) key fingerprint)

/-! ## Connections -/

inductive Channel
  | ssh
  | api
  deriving DecidableEq

/-- hostKey.ts:15 and tlsPin.ts:26. -/
def Channel.labels : Channel → PinLabels
  | .ssh => ⟨"the configured pin".toList, "the known_hosts (TOFU) store".toList⟩
  | .api => ⟨"the configured API TLS pin".toList, "the API known_certs (TOFU) store".toList⟩

/-- A connection to a host whose key has some digest, and which of its two reads fail. -/
structure Connection where
  channel : Channel
  key : Str
  digest : Str
  lookupFails : Bool
  updateFails : Bool

/-- `sha256Fingerprint` of the key that the host presents. -/
def Connection.presented (c : Connection) : Str :=
  fingerprintTag ++ c.digest

inductive Verdict
  | accepted
  | refused (reason : Str)
  /-- The verifier throws. -/
  | thrown (error : Str)
  deriving DecidableEq

/-- ssh2Client.ts:30 and tlsPin.ts:79, where no pin is configured. -/
def verify (file : PinFile) (c : Connection) : Verdict × PinFile :=
  match decidePin c.presented none (PinRecords.get (readFile file c.lookupFails) c.key) c.key
    c.channel.labels with
  | .error e => (.thrown e, file)
  | .ok (.refuse reason) => (.refused reason, file)
  | .ok (.accept _ none) => (.accepted, file)
  | .ok (.accept _ (some (key, fingerprint))) =>
    (.accepted, PinRecords.set (readFile file c.updateFails) key fingerprint)

/-- The file after some connections. -/
def fileAfter (file : PinFile) (run : List Connection) : PinFile :=
  run.foldl (fun f c => (verify f c).2) file

/-- The fingerprint that the file has for a key. -/
def recorded (file : PinFile) (key : Str) : Option Str :=
  file.bind fun data => (lookup Prod.fst key data).map Prod.snd

end HomelabMcp.Trust
