import HomelabMcp.Lib.SlashPath
import HomelabMcp.Lib.Text

/-!
# The paths that the file tools accept (pathValidation.ts)

A path is absolute, has no NUL and no two dots in a row, and is under no denied and
some allowed prefix. The prefixes are compared with the normalised path.

- `validatePath_eq_none_iff`: what passes.
-/

namespace HomelabMcp.Guardrails

open SlashPath Text

/-- The step of `normalizePosix`. -/
def pushPart (resolved : List Str) (part : Str) : List Str :=
  if part = ['.', '.'] then resolved.dropLast
  else if part = ['.'] then resolved
  else resolved ++ [part]

def normalizePosix (p : Str) : Str :=
  let resolved := ['/'].intercalate ((List.splitOn '/' p).foldl pushPart [])
  if resolved = [] then ['/'] else resolved

/-- The path is a prefix's own, or is below it. -/
def isUnder (resolved pathPrefix : Str) : Bool :=
  resolved == pathPrefix || (pathPrefix ++ ['/']).isPrefixOf resolved

def nul : Char := Char.ofNat 0

def dots : Str := "..".toList

/-- pathValidation.ts:19; the reason, when the path is not valid. -/
def validatePath (inputPath : Str) (allowlist denylist : Option (List Str)) : Option Str :=
  if !(['/'].isPrefixOf inputPath) then some "path must be absolute (POSIX)".toList
  else if inputPath.contains nul then some "null byte in path".toList
  else if includes inputPath dots then some "path traversal detected (..)".toList
  else
    let resolved := normalizePosix inputPath
    match (denylist.getD []).find? (isUnder resolved) with
    | some denied => some ("path is under denied prefix: ".toList ++ denied)
    | none =>
      if allowlist.getD [] ≠ [] ∧ !(allowlist.getD []).any (isUnder resolved) then
        some "path is not under any allowed prefix".toList
      else none

/-- What passes, whichever lists there are. -/
theorem validatePath_eq_none_iff {inputPath : Str} {allowlist denylist : Option (List Str)} :
    validatePath inputPath allowlist denylist = none ↔
      ['/'] <+: inputPath ∧ nul ∉ inputPath ∧ ¬dots <:+: inputPath ∧
      (∀ denied ∈ denylist.getD [], isUnder (normalizePosix inputPath) denied = false) ∧
      (allowlist.getD [] ≠ [] → ∃ allowed ∈ allowlist.getD [],
        isUnder (normalizePosix inputPath) allowed = true) := by
  unfold validatePath includes
  dsimp only
  split
  · next h =>
    rw [Bool.not_eq_true', ← Bool.not_eq_true, List.isPrefixOf_iff_prefix] at h
    exact iff_of_false nofun fun hall => h hall.1
  next hslash =>
  split
  · next h => exact iff_of_false nofun fun hall => hall.2.1 (List.contains_iff_mem.mp h)
  next hnul =>
  split
  · next h => exact iff_of_false nofun fun hall => hall.2.2.1 (of_decide_eq_true h)
  next hdots =>
  split
  · next denied h =>
    refine iff_of_false nofun fun hall => ?_
    have hunder := List.find?_some h
    rw [hall.2.2.2.1 denied (List.mem_of_find?_eq_some h)] at hunder
    cases hunder
  next hdenied =>
  rw [Bool.not_eq_true', Bool.not_eq_false, List.isPrefixOf_iff_prefix] at hslash
  have hnul' : nul ∉ inputPath := fun h => hnul (List.contains_iff_mem.mpr h)
  have hdots' : ¬dots <:+: inputPath := fun h => hdots (decide_eq_true h)
  have hdenied' : ∀ denied ∈ denylist.getD [],
      isUnder (normalizePosix inputPath) denied = false := fun denied hmem =>
    Bool.eq_false_iff.mpr (List.find?_eq_none.mp hdenied denied hmem)
  -- The allowlist is all that is left to decide.
  split
  · next h =>
    refine iff_of_false nofun fun hall => ?_
    obtain ⟨allowed, hmem, hunder⟩ := hall.2.2.2.2 h.1
    rw [Bool.not_eq_true', List.any_eq_false] at h
    exact h.2 allowed hmem hunder
  · next h =>
    refine iff_of_true rfl ⟨hslash, hnul', hdots', hdenied', fun hne => ?_⟩
    rw [not_and, Bool.not_eq_true', Bool.not_eq_false] at h
    exact List.any_eq_true.mp (h hne)

end HomelabMcp.Guardrails
