import HomelabMcp.Guardrails.RedactionCounts
import HomelabMcp.Tools.FileRuns

/-!
# Redacted text and the files (redaction.ts, writeFile.ts)

What the tools show of a file has markers where its secrets are. Written back, it would
put the markers over the secrets.

- `redacted_never_lands`: no run of the write tools brings a marker into a file, so that what
  was redacted never gets into a file that had none.
-/

namespace HomelabMcp.Tools

open SlashPath Text Backup Guardrails Redaction

/-- The markers in a file. -/
def World.markers (w : World) (target : BackupTarget) : Nat :=
  countMarkers (((w.files target).map Utf8.decode).getD [])

/-- A call of a write tool, what goes wrong in it, and its time. -/
structure WriteTurn where
  request : WriteRequest
  trouble : Trouble WriteCall
  now : Instant

def WriteTurn.turn (t : WriteTurn) : Turn :=
  .write t.request t.trouble t.now

theorem World.markers_of_files {w w' : World} (h : w'.files = w.files) (target : BackupTarget) :
    w'.markers target = w.markers target := by
  unfold World.markers
  rw [h]

theorem countMarkers_le {prev : Option Str} {next : Str}
    (h : introducesRedactionMarker prev next = false) :
    countMarkers next ≤ countMarkers (prev.getD []) :=
  Nat.not_lt.mp (of_decide_eq_false h)

/-- A file that cannot be read is taken for one without markers. -/
theorem World.Shows.markers_le {w : World} {unreadable : Str → Bool} {target : BackupTarget}
    {content : Option Bytes} (h : w.Shows unreadable target content) :
    countMarkers ((content.map Utf8.decode).getD []) ≤ w.markers target := by
  rcases h with rfl | ⟨rfl, -⟩
  · exact Nat.le_refl _
  · exact Nat.zero_le _

/-- A write over what was read, whole or cut off, brings no marker into any file. -/
theorem World.markers_update_le {w w' : World} {unreadable : Str → Bool} {place : BackupTarget}
    {prev : Option Bytes} (hseen : w.Shows unreadable place prev) {content landed : Bytes}
    (hunmarked : introducesRedactionMarker (prev.map Utf8.decode) (Utf8.decode content) = false)
    (hlanded : countMarkers (Utf8.decode landed) ≤ countMarkers (Utf8.decode content))
    (hfiles : w'.files = Function.update w.files place (some landed)) (target : BackupTarget) :
    w'.markers target ≤ w.markers target := by
  by_cases htarget : target = place
  · -- the guard compares with what was read, which has no more than the file
    subst htarget
    have hafter : w'.markers target = countMarkers (Utf8.decode landed) := by
      unfold World.markers
      rw [hfiles, Function.update_self]
      rfl
    calc w'.markers target = countMarkers (Utf8.decode landed) := hafter
      _ ≤ countMarkers (Utf8.decode content) := hlanded
      _ ≤ countMarkers ((prev.map Utf8.decode).getD []) := countMarkers_le hunmarked
      _ ≤ w.markers target := hseen.markers_le
  · refine Nat.le_of_eq ?_
    unfold World.markers
    rw [hfiles, Function.update_of_ne htarget]

/-- One call brings no marker into any file. -/
theorem WriteTurn.markers_le (e : Setup) (w : World) (t : WriteTurn) (target : BackupTarget) :
    (t.turn.play e w).markers target ≤ w.markers target := by
  have hstep := write_refines e.rt e.write e.hasHistory t.trouble t.now t.request w
  show (Program.play (answerWrite e.rt e.write.backup t.trouble t.now) w
    (t.request.handler e.rt e.write e.hasHistory)).2.markers target ≤ _
  generalize Program.play (answerWrite e.rt e.write.backup t.trouble t.now) w
    (t.request.handler e.rt e.write e.hasHistory) = result at hstep ⊢
  obtain ⟨outcome, w'⟩ := result
  cases outcome with
  | unfinished => exact hstep.elim
  | thrown message =>
    rcases hstep.2.1 with hfiles | ⟨prev, content, hseen, -, -, ⟨n, hfiles⟩, hunmarked⟩
    · exact (World.markers_of_files hfiles target).le
    · exact World.markers_update_le hseen hunmarked (countMarkers_decode_take_le content n) hfiles
        target
  | returned outcome =>
    cases outcome with
    | preview result => exact (World.markers_of_files hstep.1 target).le
    | written result =>
      obtain ⟨prev, content, -, -, hseen, -, -, hfiles, -, -, -, -, hunmarked⟩ := hstep
      exact World.markers_update_le hseen hunmarked (Nat.le_refl _) hfiles target

theorem World.markers_after_le (e : Setup) (w : World) (turns : List WriteTurn)
    (target : BackupTarget) :
    (w.after e (turns.map WriteTurn.turn)).markers target ≤ w.markers target := by
  induction turns using List.reverseRecOn with
  | nil => exact Nat.le_refl _
  | append_singleton turns t ih =>
    rw [List.map_append, World.after_append]
    exact (t.markers_le e _ target).trans ih

/-- What redaction has changed shows a marker, whatever stands around it. -/
theorem countMarkers_redactString {fp : Fingerprint} {extraKeys : List Str} {text : Str}
    (h : (redactString fp extraKeys text).1 ≠ text) (front back : Str) :
    0 < countMarkers (front ++ (redactString fp extraKeys text).1 ++ back) := by
  have hhonest := @honest_redactString fp extraKeys
  have hpos : 0 < (redactString fp extraKeys text).2 :=
    Nat.pos_of_ne_zero fun hzero => h (hhonest.same text hzero)
  exact (lasting_hasMarker.append_right back
    (lasting_hasMarker.append_left front (hhonest.shown text hpos))).countMarkers_pos

/-- No run of the write tools, whatever fails in it and however much of its content a write
that throws leaves, brings a marker into a file; what redaction has changed is no part of a
file that had no marker before the run. -/
theorem redacted_never_lands (e : Setup) (w : World) (turns : List WriteTurn)
    (target : BackupTarget) :
    (w.after e (turns.map WriteTurn.turn)).markers target ≤ w.markers target ∧
      ∀ fp extraKeys text front back, (redactString fp extraKeys text).1 ≠ text →
        w.markers target = 0 →
        ((w.after e (turns.map WriteTurn.turn)).files target).map Utf8.decode ≠
          some (front ++ (redactString fp extraKeys text).1 ++ back) := by
  have hrun := w.markers_after_le e turns target
  refine ⟨hrun, fun fp extraKeys text front back hredacted hplain hlanded => ?_⟩
  have hmarked := countMarkers_redactString hredacted front back
  have hcount : (w.after e (turns.map WriteTurn.turn)).markers target =
      countMarkers (front ++ (redactString fp extraKeys text).1 ++ back) := by
    unfold World.markers
    rw [hlanded]
    rfl
  rw [hplain, hcount] at hrun
  exact Nat.not_lt.mpr hrun hmarked

def unkeyed : Fingerprint := ⟨none, nofun⟩

/-- What was shown of a secret is written over a file. -/
def writeBack : WriteTurn :=
  ⟨.writeFile false ⟨"/etc/motd".toList,
    Utf8.encode (redactString unkeyed [] "token=s3cret".toList).1, false⟩,
    .calm untripped, atSecond 1⟩

theorem redacted_never_lands_motd :
    ((motdWorld.after plainSetup ([writeBack].map WriteTurn.turn)).files motd).map Utf8.decode ≠
      some ([] ++ (redactString unkeyed [] "token=s3cret".toList).1 ++ []) :=
  (redacted_never_lands plainSetup motdWorld [writeBack] motd).2 unkeyed [] _ [] []
    (by decide +kernel) (by decide +kernel)

end HomelabMcp.Tools
