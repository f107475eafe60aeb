import HomelabMcp.Backup.ReverseDiff
import HomelabMcp.Lib.Lcs
import Mathlib.Data.List.Chain

/-!
# Reverse diffs are minimal (policy.ts)

The table of `buildHunks` holds lengths of longest common subsequences, the walk
back through it keeps that many lines, and joining edits of one kind loses none.

- `isLongestCommon_lcsTable`: cell `(i, j)` is about the first `i` new and the
  first `j` previous lines.
- `keeps_backtrack`: the walk from `(i, j)` keeps what the cell promises.
- `buildHunks_replays_minimal`: the hunks as a whole.
-/

namespace HomelabMcp.Backup

open SlashPath Lcs

/-! ## The table -/

/-- `row` holds, from the cell after `done` on, the lengths for `a` against the
initial segments of the previous lines. -/
inductive RowOf (a : List Str) : List Str → List Str → List Nat → Prop
  | last {done n} : IsLongestCommon n a done → RowOf a done [] [n]
  | cons {done l rest n row} : IsLongestCommon n a done → RowOf a (done ++ [l]) rest row →
      RowOf a done (l :: rest) (n :: row)

theorem RowOf.head {a done rest : List Str} {n : Nat} {row : List Nat}
    (h : RowOf a done rest (n :: row)) : IsLongestCommon n a done := by
  cases h with
  | last hn => exact hn
  | cons hn _ => exact hn

/-- The first row, of zeros, is the row of no lines. -/
theorem rowOf_zeros (done rest : List Str) :
    RowOf [] done rest (List.replicate (rest.length + 1) 0) := by
  induction rest generalizing done with
  | nil => exact RowOf.last (IsLongestCommon.nil_left done)
  | cons l rest ih => exact RowOf.cons (IsLongestCommon.nil_left done) (ih _)

/-- One more new line: the next row is computed from the one above. -/
theorem rowOf_lcsCells {a done rest : List Str} {row : List Nat} {newLine : Str} {left : Nat}
    (h : RowOf a done rest row) (hleft : IsLongestCommon left (a ++ [newLine]) done) :
    RowOf (a ++ [newLine]) done rest (left :: lcsCells newLine left rest row) := by
  induction h generalizing left with
  | last _ => exact RowOf.last hleft
  | @cons done prevLine rest diagonal row hdiagonal hrow ih =>
    obtain ⟨above, row, rfl⟩ : ∃ above tail, row = above :: tail := by
      cases hrow with
      | last _ => exact ⟨_, _, rfl⟩
      | cons _ _ => exact ⟨_, _, rfl⟩
    rw [lcsCells]
    refine RowOf.cons hleft (ih ?_)
    by_cases hsame : newLine = prevLine
    · rw [if_pos hsame, hsame]
      exact hdiagonal.concat_same
    · -- the larger of the cells above and to the left
      have hcell : (if above > left then above else left) = max above left := by
        rw [max_def_lt]
        by_cases hgt : above > left
        · rw [if_pos hgt, if_neg (by omega)]
        · rw [if_neg hgt]
          by_cases hlt : above < left
          · rw [if_pos hlt]
          · rw [if_neg hlt]
            omega
      rw [if_neg hsame, hcell]
      exact IsLongestCommon.concat_ne hsame hrow.head hleft

/-- Row `i` of the rows that follow `a` is about `a` and the next `i` lines. -/
theorem rowOf_lcsRows {prevLines a newLines : List Str} {row : List Nat} {i : Nat}
    (h : RowOf a [] prevLines row) (hi : i ≤ newLines.length) :
    RowOf (a ++ newLines.take i) [] prevLines ((lcsRows prevLines row newLines).getD i []) := by
  induction newLines generalizing a row i with
  | nil =>
    obtain rfl : i = 0 := Nat.le_zero.mp hi
    rw [List.take_zero, List.append_nil]
    exact h
  | cons newLine newLines ih =>
    cases i with
    | zero =>
      rw [List.take_zero, List.append_nil]
      exact h
    | succ i =>
      have hnext := rowOf_lcsCells h (IsLongestCommon.nil_right (a ++ [newLine]))
      rw [List.take_succ_cons, List.append_cons]
      exact ih hnext (Nat.le_of_succ_le_succ hi)

theorem RowOf.isLongestCommon_getD {a done rest : List Str} {row : List Nat} {j : Nat}
    (h : RowOf a done rest row) (hj : j ≤ rest.length) :
    IsLongestCommon (row.getD j 0) a (done ++ rest.take j) := by
  induction h generalizing j with
  | last hn =>
    obtain rfl : j = 0 := Nat.le_zero.mp hj
    rw [List.take_zero, List.append_nil]
    exact hn
  | @cons done l rest n row hn _ ih =>
    cases j with
    | zero =>
      rw [List.take_zero, List.append_nil]
      exact hn
    | succ j =>
      rw [List.take_succ_cons, List.append_cons]
      exact ih (Nat.le_of_succ_le_succ hj)

theorem isLongestCommon_lcsTable {newLines prevLines : List Str} {i j : Nat}
    (hi : i ≤ newLines.length) (hj : j ≤ prevLines.length) :
    IsLongestCommon (lcsTable newLines prevLines i j) (newLines.take i) (prevLines.take j) :=
  (rowOf_lcsRows (rowOf_zeros [] prevLines) hi).isLongestCommon_getD hj

/-! ## The walk -/

def RawEdit.isKeep : RawEdit → Bool
  | .keep => true
  | _ => false

/-- Whatever the ties, the walk from a cell keeps as many lines as it says. -/
theorem keeps_backtrack {dp : Nat → Nat → Nat} {newLines prevLines : List Str} {fuel i j : Nat}
    (hdp : ∀ i j, i ≤ newLines.length → j ≤ prevLines.length →
      IsLongestCommon (dp i j) (newLines.take i) (prevLines.take j))
    (hi : i ≤ newLines.length) (hj : j ≤ prevLines.length) (hfuel : i + j ≤ fuel) :
    IsLongestCommon ((backtrack dp newLines prevLines fuel i j).countP RawEdit.isKeep)
      (newLines.take i) (prevLines.take j) := by
  induction fuel generalizing i j with
  | zero =>
    obtain ⟨rfl, rfl⟩ : i = 0 ∧ j = 0 := by omega
    exact IsLongestCommon.nil_left _
  | succ fuel ih =>
    rw [backtrack]
    by_cases h0 : i = 0 ∧ j = 0
    · rw [if_pos h0, h0.1]
      exact IsLongestCommon.nil_left _
    rw [if_neg h0]
    by_cases hkeep : i > 0 ∧ j > 0 ∧ newLines.getD (i - 1) [] = prevLines.getD (j - 1) []
    · rw [if_pos hkeep, List.countP_cons_of_pos (by rfl), take_succ_getD hkeep.1 hi,
        take_succ_getD hkeep.2.1 hj, hkeep.2.2]
      exact (ih (by omega) (by omega) (by omega)).concat_same
    rw [if_neg hkeep]
    by_cases hinsert : j > 0 ∧ (i = 0 ∨ dp i (j - 1) ≥ dp (i - 1) j)
    · have hwalk := ih hi (j := j - 1) (by omega) (by omega)
      rw [if_pos hinsert, List.countP_cons_of_neg Bool.false_ne_true]
      by_cases hi0 : i = 0
      · -- no new line is left to keep
        rw [hi0, List.take_zero] at hwalk ⊢
        rw [hwalk.unique (IsLongestCommon.nil_left _)]
        exact IsLongestCommon.nil_left _
      · have hle := hinsert.2.resolve_left hi0
        have hup := hdp (i - 1) j (by omega) hj
        have hne : newLines.getD (i - 1) [] ≠ prevLines.getD (j - 1) [] := fun h =>
          hkeep ⟨by omega, hinsert.1, h⟩
        rw [hwalk.unique (hdp i (j - 1) hi (by omega)), ← max_eq_right hle]
        have hleft := hdp i (j - 1) hi (by omega)
        rw [take_succ_getD hinsert.1 hj] at hup ⊢
        rw [take_succ_getD (by omega) hi] at hleft ⊢
        exact IsLongestCommon.concat_ne hne hup hleft
    · have hpos : 0 < i := by omega
      have hwalk := ih (i := i - 1) (by omega) hj (by omega)
      rw [if_neg hinsert, List.countP_cons_of_neg Bool.false_ne_true]
      by_cases hj0 : j = 0
      · -- no previous line is left to keep
        rw [hj0, List.take_zero] at hwalk ⊢
        rw [hwalk.unique (IsLongestCommon.nil_right _)]
        exact IsLongestCommon.nil_right _
      · have hle : dp i (j - 1) ≤ dp (i - 1) j := by omega
        have hleft := hdp i (j - 1) hi (by omega)
        have hne : newLines.getD (i - 1) [] ≠ prevLines.getD (j - 1) [] := fun h =>
          hkeep ⟨hpos, by omega, h⟩
        rw [hwalk.unique (hdp (i - 1) j (by omega) hj), ← max_eq_left hle]
        have hup := hdp (i - 1) j (by omega) hj
        rw [take_succ_getD (by omega) hj] at hup ⊢
        rw [take_succ_getD hpos hi] at hleft ⊢
        exact IsLongestCommon.concat_ne hne hup hleft

/-! ## The hunks -/

/-- The property that `applyHunks` tells hunks apart by. -/
inductive HunkKind
  | k
  | d
  | i
  deriving DecidableEq

def DiffHunk.kind : DiffHunk → HunkKind
  | .keep _ => .k
  | .delete _ => .d
  | .insert _ => .i

/-- The number of lines a hunk keeps. -/
def DiffHunk.keeps : DiffHunk → Nat
  | .keep k => k
  | _ => 0

/-- The number of lines a hunk deletes. -/
def DiffHunk.deletes : DiffHunk → Nat
  | .delete d => d
  | _ => 0

def keptLines : List DiffHunk → Nat
  | [] => 0
  | hunk :: hunks => hunk.keeps + keptLines hunks

def deletedLines : List DiffHunk → Nat
  | [] => 0
  | hunk :: hunks => hunk.deletes + deletedLines hunks

theorem keptLines_concat (hunks : List DiffHunk) (last : DiffHunk) :
    keptLines (hunks ++ [last]) = keptLines hunks + last.keeps := by
  induction hunks with
  | nil => exact Nat.add_comm last.keeps 0
  | cons hunk hunks ih =>
    rw [List.cons_append, keptLines, ih, keptLines]
    omega

/-- `addEdit` starts a hunk of a new kind, or makes the last one longer. -/
theorem addEdit_cases (hunks : List DiffHunk) (e : RawEdit) :
    (addEdit hunks e = hunks ++ [e.hunk] ∧ ∀ last, hunks.getLast? = some last →
      last.kind ≠ e.hunk.kind) ∨
    ∃ init last joined, hunks = init ++ [last] ∧ addEdit hunks e = init ++ [joined] ∧
      joined.kind = last.kind ∧ joined.keeps = last.keeps + e.hunk.keeps := by
  cases hlast : hunks.getLast? with
  | none =>
    refine Or.inl ⟨?_, fun _ h => nomatch h⟩
    cases e <;> simp only [addEdit, hlast] <;> rfl
  | some last =>
    have hinit := (List.dropLast_append_getLast? last hlast).symm
    cases e with
    | keep =>
      cases last with
      | keep k => exact Or.inr ⟨_, _, .keep (k + 1), hinit, by simp only [addEdit, hlast], rfl, rfl⟩
      | delete d => exact Or.inl ⟨by simp only [addEdit, hlast]; rfl, by rintro _ ⟨⟩ ⟨⟩⟩
      | insert i => exact Or.inl ⟨by simp only [addEdit, hlast]; rfl, by rintro _ ⟨⟩ ⟨⟩⟩
    | delete =>
      cases last with
      | keep k => exact Or.inl ⟨by simp only [addEdit, hlast]; rfl, by rintro _ ⟨⟩ ⟨⟩⟩
      | delete d =>
        exact Or.inr ⟨_, _, .delete (d + 1), hinit, by simp only [addEdit, hlast], rfl, rfl⟩
      | insert i => exact Or.inl ⟨by simp only [addEdit, hlast]; rfl, by rintro _ ⟨⟩ ⟨⟩⟩
    | insert v =>
      cases last with
      | keep k => exact Or.inl ⟨by simp only [addEdit, hlast]; rfl, by rintro _ ⟨⟩ ⟨⟩⟩
      | delete d => exact Or.inl ⟨by simp only [addEdit, hlast]; rfl, by rintro _ ⟨⟩ ⟨⟩⟩
      | insert i =>
        exact Or.inr ⟨_, _, .insert (i ++ [v]), hinit, by simp only [addEdit, hlast], rfl, rfl⟩

theorem RawEdit.keeps_hunk (e : RawEdit) : e.hunk.keeps = if e.isKeep then 1 else 0 := by
  cases e <;> rfl

/-- Adjacent hunks are of different kinds. -/
def Alternating (hunks : List DiffHunk) : Prop :=
  hunks.IsChain fun h h' => h.kind ≠ h'.kind

theorem alternating_addEdit {hunks : List DiffHunk} (h : Alternating hunks) (e : RawEdit) :
    Alternating (addEdit hunks e) := by
  obtain ⟨heq, hnew⟩ | ⟨init, last, joined, rfl, heq, hkind, -⟩ := addEdit_cases hunks e
  · rw [heq]
    refine List.IsChain.append h (List.isChain_singleton _) ?_
    rintro last hlast _ ⟨⟩
    exact hnew last hlast
  · rw [heq]
    obtain ⟨hinit, -, hmeet⟩ := List.isChain_append.mp h
    refine List.isChain_append.mpr ⟨hinit, List.isChain_singleton _, ?_⟩
    rintro prior hprior _ ⟨⟩
    rw [hkind]
    exact hmeet prior hprior last rfl

theorem keptLines_addEdit (hunks : List DiffHunk) (e : RawEdit) :
    keptLines (addEdit hunks e) = keptLines hunks + if e.isKeep then 1 else 0 := by
  rw [← RawEdit.keeps_hunk]
  obtain ⟨heq, -⟩ | ⟨init, last, joined, rfl, heq, -, hkeeps⟩ := addEdit_cases hunks e
  · rw [heq, keptLines_concat]
  · rw [heq, keptLines_concat, keptLines_concat, hkeeps]
    omega

theorem foldl_addEdit (edits : List RawEdit) {hunks : List DiffHunk} (h : Alternating hunks) :
    Alternating (edits.foldl addEdit hunks) ∧
      keptLines (edits.foldl addEdit hunks) = keptLines hunks + edits.countP RawEdit.isKeep := by
  induction edits generalizing hunks with
  | nil => exact ⟨h, rfl⟩
  | cons e edits ih =>
    obtain ⟨halt, hkept⟩ := ih (alternating_addEdit h e)
    refine ⟨halt, ?_⟩
    rw [List.foldl_cons, hkept, keptLines_addEdit, List.countP_cons]
    omega

/-- Hunks that run through move the position by what they keep and delete. -/
theorem position_runHunks {newLines : List Str} {hunks : List DiffHunk} {s t : List Str × Nat}
    (h : runHunks newLines hunks s = .ok t) :
    t.2 = s.2 + keptLines hunks + deletedLines hunks := by
  induction hunks generalizing s with
  | nil =>
    cases h
    rfl
  | cons hunk hunks ih =>
    obtain ⟨out, ni⟩ := s
    have hsum : keptLines (hunk :: hunks) + deletedLines (hunk :: hunks) =
        hunk.keeps + hunk.deletes + (keptLines hunks + deletedLines hunks) := by
      rw [keptLines, deletedLines]
      omega
    cases hunk with
    | keep k =>
      simp only [runHunks] at h
      by_cases hk : k = 0 ∨ ni + k ≤ newLines.length
      · rw [if_pos hk] at h
        have hrest : t.2 = ni + k + keptLines hunks + deletedLines hunks := ih h
        have hhunk : (DiffHunk.keep k).keeps + (DiffHunk.keep k).deletes = k := rfl
        show t.2 = ni + _ + _
        omega
      · rw [if_neg hk] at h
        cases h
    | delete d =>
      have hrest : t.2 = ni + d + keptLines hunks + deletedLines hunks := ih h
      have hhunk : (DiffHunk.delete d).keeps + (DiffHunk.delete d).deletes = d := Nat.zero_add d
      show t.2 = ni + _ + _
      omega
    | insert i =>
      have hrest : t.2 = ni + keptLines hunks + deletedLines hunks := ih h
      have hhunk : (DiffHunk.insert i).keeps + (DiffHunk.insert i).deletes = 0 := rfl
      show t.2 = ni + _ + _
      omega

/-- The hunks never run past the new lines and rebuild the previous ones; they
are as few as their kinds allow, cover the new lines exactly, and keep as many
lines as any rewriting could. -/
theorem buildHunks_replays_minimal (newLines prevLines : List Str) :
    applyHunks (buildHunks newLines prevLines) newLines =
        .ok (Utf8.encode (joinLines prevLines)) ∧
      Alternating (buildHunks newLines prevLines) ∧
      keptLines (buildHunks newLines prevLines) + deletedLines (buildHunks newLines prevLines) =
        newLines.length ∧
      IsLongestCommon (keptLines (buildHunks newLines prevLines)) newLines prevLines := by
  have hnone : Alternating [] := List.IsChain.nil
  obtain ⟨halt, hkept⟩ := foldl_addEdit (backtrack (lcsTable newLines prevLines) newLines prevLines
    (newLines.length + prevLines.length) newLines.length prevLines.length).reverse hnone
  refine ⟨applyHunks_buildHunks newLines prevLines, halt, ?_, ?_⟩
  · have hposition := position_runHunks (runHunks_buildHunks newLines prevLines)
    simp only [Nat.zero_add] at hposition
    exact hposition.symm
  · have hwalk := keeps_backtrack (fun i j hi hj => isLongestCommon_lcsTable hi hj)
      (le_refl newLines.length) (le_refl prevLines.length) (le_refl _)
    rw [List.take_length, List.take_length] at hwalk
    have hcount : keptLines (buildHunks newLines prevLines) = _ := hkept
    rwa [hcount, List.countP_reverse, keptLines, Nat.zero_add]

end HomelabMcp.Backup
