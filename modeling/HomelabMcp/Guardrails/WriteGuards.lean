import HomelabMcp.Lib.Text

/-!
# Guards on what is written (redaction.ts, largeChange.ts)

Tools show files with their secrets replaced by markers. A write that has more markers
than the file before is refused, since it would put markers over the secrets.
-/

namespace HomelabMcp.Guardrails

open SlashPath Text

def hexDigit (c : Char) : Bool :=
  c.isDigit || ('a' ≤ c && c ≤ 'f')

/-- What comes after `start` in a text that begins with it. -/
def after? (start text : Str) : Option Str :=
  if start <+: text then some (text.drop start.length) else none

/-- ` fp=` and eight digits, where they are. -/
def skipFingerprint (text : Str) : Str :=
  match after? " fp=".toList text with
  | some rest => if 8 ≤ rest.length ∧ (rest.take 8).all hexDigit then rest.drop 8 else text
  | none => text

/-- `MARKER_RE` (redaction.ts:55): how long the marker is that a text begins with. -/
def markerLength (text : Str) : Option Nat := do
  let rest ← after? "<redacted len=".toList text
  let tail := skipFingerprint (rest.dropWhile Char.isDigit)
  if (rest.takeWhile Char.isDigit) ≠ [] ∧ tail.head? = some '>' then
    some (text.length - tail.length + 1)
  else none

/-- The markers of a text, when some characters of it belong to the last one. -/
def countMarkersFrom : Nat → Str → Nat
  | _, [] => 0
  | skip + 1, _ :: text => countMarkersFrom skip text
  | 0, c :: text =>
    match markerLength (c :: text) with
    | some n => countMarkersFrom (n - 1) text + 1
    | none => countMarkersFrom 0 text

/-- redaction.ts:62. -/
def countMarkers (text : Str) : Nat :=
  countMarkersFrom 0 text

/-- redaction.ts:72. -/
def introducesRedactionMarker (prev : Option Str) (next : Str) : Bool :=
  decide (countMarkers next > countMarkers (prev.getD []))

def REDACTION_MARKER_WRITE_REFUSAL : Str :=
  ("Refusing to write: the new content contains \x60<redacted len=…>\x60 markers that the " ++
    "current file does not. Tool output is secret-redacted, so writing it back would replace " ++
    "real secrets with markers. Use the matching *_edit_file tool to change only the lines you " ++
    "need (untouched secrets are preserved), or supply the real value yourself.").toList

example : countMarkers "a=<redacted len=3>, b=<redacted len=12 fp=0123abcd>, <redacted len=>".toList =
    2 := by
  decide

/-- largeChange.ts:29, why a write counts as large. -/
def detectLargeFileWrite (newBytes : Nat) (isNewFile : Bool) (thresholdBytes : Nat) : Option Str :=
  if isNewFile then some "new file creation".toList
  else if newBytes > thresholdBytes then
    some ("file size ".toList ++ numeral newBytes ++ " bytes exceeds threshold ".toList ++
      numeral thresholdBytes ++ " bytes".toList)
  else none

end HomelabMcp.Guardrails
