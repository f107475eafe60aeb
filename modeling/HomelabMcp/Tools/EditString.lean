import HomelabMcp.Backup.Policy
import HomelabMcp.Lib.Search

/-!
# String edits (editString.ts, editFile.ts)

An edit names the text to replace. Strings are code units, since a search may
match one half of a surrogate pair; the file is bytes, decoded before the edit and
encoded after it.

- `applyStringEdit_once`: what an edit without `replaceAll` answers.
- `edit_unambiguous_local_iff`: when the text replaced is the only occurrence and
  the rest of the file is kept.
-/

namespace HomelabMcp.EditString

open SlashPath Text Search Backup

variable {α : Type*} [DecidableEq α]

inductive EditFailureReason
  | notFound
  | notUnique
  | noChange
  deriving DecidableEq

/-- editString.ts:28. -/
inductive EditResult (α : Type*)
  | ok (next : List α) (replacements : Nat)
  | failed (reason : EditFailureReason) (count : Option Nat)
  deriving DecidableEq

structure ApplyStringEditArgs (α : Type*) where
  prev : List α
  oldString : List α
  newString : List α
  replaceAll : Bool

/-- editString.ts:40. -/
def countOccurrences (haystack needle : List α) : Nat :=
  if needle.length = 0 then 0 else (split needle haystack).length - 1

/-- editString.ts:45. -/
def applyStringEdit (args : ApplyStringEditArgs α) : EditResult α :=
  let { prev, oldString, newString, replaceAll } := args
  if oldString.length = 0 then .failed .notFound (some 0)
  else
    let count := countOccurrences prev oldString
    if count = 0 then .failed .notFound (some 0)
    else if replaceAll = false ∧ count > 1 then .failed .notUnique (some count)
    else
      let next :=
        if replaceAll then newString.intercalate (split oldString prev)
        else
          -- there is an occurrence, so that `indexOf` is not -1 here
          let idx := (indexOf oldString prev).getD 0
          prev.take idx ++ newString ++ prev.drop (idx + oldString.length)
      if next = prev then .failed .noChange none
      else .ok next (if replaceAll then count else 1)

/-- editString.ts:80. -/
def editFailureMessage (reason : EditFailureReason) (count : Option Nat) : Str :=
  match reason with
  | .notFound =>
    ("oldString was not found in the file. Check whitespace/indentation and that the text " ++
      "exists verbatim.").toList
  | .notUnique =>
    "oldString occurs ".toList ++ (count.map numeral).getD "undefined".toList ++
      (" times — it must be unique. Include more surrounding context to single out one " ++
        "occurrence, or pass replaceAll: true.").toList
  | .noChange =>
    ("The edit would not change the file (oldString equals newString). " ++
      "No write performed.").toList

/-- editFile.ts:39, as far as the content goes. -/
structure EditFileInput where
  path : Str
  oldString : List Nat
  newString : List Nat
  replaceAll : Bool

/-- editFile.ts:60: from the previous content to the bytes handed to
`writeResolvedHost`. -/
def editFileContent (input : EditFileInput) (prevContent : Option Bytes) : Except Str Bytes :=
  match prevContent with
  | none =>
    .error ("edit_file: ".toList ++ input.path ++
      " does not exist. Use write_file to create a new file.".toList)
  | some prev =>
    if isTextContent prev = false then
      .error ("edit_file: ".toList ++ input.path ++
        " is binary (or non-UTF-8). Use write_file for binary content.".toList)
    else
      match applyStringEdit
        ⟨codeUnits (Utf8.decode prev), input.oldString, input.newString, input.replaceAll⟩ with
      | .failed reason count => .error ("edit_file: ".toList ++ editFailureMessage reason count)
      | .ok next _ => .ok (Utf8.encode (fromUnits next))

/-! ## What the counting does not see -/

/-- No second occurrence begins inside the first one. -/
def NoOverlap (oldString prev : List α) : Prop :=
  ∀ i, indexOf oldString prev = some i →
    ∀ k, 0 < k → k < oldString.length → ¬ OccursAt oldString prev (i + k)

theorem countOccurrences_eq_one {prev oldString : List α} :
    countOccurrences prev oldString = 1 ↔
      ∃ i, indexOf oldString prev = some i ∧
        (∀ j, OccursAt oldString prev j → j < i + oldString.length) ∧ oldString ≠ [] := by
  unfold countOccurrences
  by_cases hne : oldString = []
  · rw [if_pos (by rw [hne]; rfl)]
    refine iff_of_false Nat.zero_ne_one ?_
    rintro ⟨i, -, -, h⟩
    exact h hne
  · rw [if_neg (fun h => hne (List.length_eq_zero_iff.mp h))]
    have htwo : (split oldString prev).length - 1 = 1 ↔ (split oldString prev).length = 2 := by
      omega
    rw [htwo, split_length_eq_two hne]
    exact exists_congr fun i => and_congr_right fun _ => (and_iff_left hne).symm

/-- Counted once and not overlapped: the only occurrence. -/
theorem occursAt_iff_of_noOverlap {prev oldString : List α}
    (hcount : countOccurrences prev oldString = 1) (hover : NoOverlap oldString prev) :
    ∃ i, indexOf oldString prev = some i ∧ ∀ j, OccursAt oldString prev j ↔ j = i := by
  obtain ⟨i, hindex, hlast, -⟩ := countOccurrences_eq_one.mp hcount
  obtain ⟨hoccurs, hfirst⟩ := indexOf_eq_some hindex
  refine ⟨i, hindex, fun j => ⟨fun hj => ?_, fun hj => hj ▸ hoccurs⟩⟩
  have hge := hfirst j hj
  have hlt := hlast j hj
  by_contra hne
  refine hover i hindex (j - i) (by omega) (by omega) ?_
  rwa [show i + (j - i) = j by omega]

theorem noOverlap_of_occursAt_iff {prev oldString : List α} {i : Nat}
    (h : ∀ j, OccursAt oldString prev j ↔ j = i) : NoOverlap oldString prev := by
  intro first hindex k hk _ hoccurs
  have hfirst : first = i := (h first).mp (indexOf_eq_some hindex).1
  have hsecond : first + k = i := (h (first + k)).mp hoccurs
  omega

omit [DecidableEq α] in
/-- A splice at an occurrence changes nothing only when it puts back the same. -/
theorem splice_eq_iff {prev oldString : List α} (newString : List α) {i : Nat}
    (h : OccursAt oldString prev i) :
    prev.take i ++ newString ++ prev.drop (i + oldString.length) = prev ↔
      newString = oldString := by
  have hprev := h.eq_append
  constructor
  · intro heq
    have hboth : prev.take i ++ newString ++ prev.drop (i + oldString.length) =
        prev.take i ++ oldString ++ prev.drop (i + oldString.length) := heq.trans hprev
    exact List.append_cancel_left (List.append_cancel_right hboth)
  · rintro rfl
    exact hprev.symm

/-- An edit without `replaceAll` goes through when the text is counted once and
changes; it splices at the first occurrence. -/
theorem applyStringEdit_once {prev oldString newString next : List α} {n : Nat} :
    applyStringEdit ⟨prev, oldString, newString, false⟩ = .ok next n ↔
      countOccurrences prev oldString = 1 ∧ oldString ≠ newString ∧ n = 1 ∧
        ∃ i, indexOf oldString prev = some i ∧
          next = prev.take i ++ newString ++ prev.drop (i + oldString.length) := by
  simp only [applyStringEdit, Bool.false_eq_true, if_false, true_and]
  by_cases hempty : oldString.length = 0
  · rw [if_pos hempty]
    refine iff_of_false (fun h => by cases h) fun h => ?_
    rw [countOccurrences, if_pos hempty] at h
    exact Nat.zero_ne_one h.1
  rw [if_neg hempty]
  by_cases hone : countOccurrences prev oldString = 1
  · obtain ⟨i, hindex, -, -⟩ := countOccurrences_eq_one.mp hone
    have hsplice := splice_eq_iff newString (indexOf_eq_some hindex).1
    rw [if_neg (by omega), if_neg (by omega), hindex, Option.getD_some]
    by_cases hsame : newString = oldString
    · rw [if_pos (hsplice.mpr hsame)]
      exact iff_of_false (fun h => by cases h) fun h => h.2.1 hsame.symm
    · rw [if_neg fun h => hsame (hsplice.mp h)]
      constructor
      · rintro ⟨⟩
        exact ⟨hone, fun h => hsame h.symm, rfl, i, rfl, rfl⟩
      · rintro ⟨-, -, rfl, _, ⟨⟩, rfl⟩
        rfl
  · refine iff_of_false ?_ fun h => hone h.1
    by_cases hzero : countOccurrences prev oldString = 0
    · rw [if_pos hzero]
      exact fun h => by cases h
    · rw [if_neg hzero, if_pos (by omega)]
      exact fun h => by cases h

/-! ## Strings and files -/

/-- An edit without `replaceAll` that goes through replaces the one occurrence
of its text. -/
def Unambiguous (prev oldString newString : List α) : Prop :=
  ∀ next n, applyStringEdit ⟨prev, oldString, newString, false⟩ = .ok next n →
    ∃ i, (∀ j, OccursAt oldString prev j ↔ j = i) ∧
      next = prev.take i ++ newString ++ prev.drop (i + oldString.length)

/-- The bytes before and after those of `oldString` are in `written` as they were
in the file. -/
def KeepsRest (prev : Bytes) (oldString newString : List Nat) (written : Bytes) : Prop :=
  ∃ pre region post, prev = pre ++ region ++ post ∧
    codeUnits (Utf8.decode region) = oldString ∧
    codeUnits (Utf8.decode prev) =
      codeUnits (Utf8.decode pre) ++ oldString ++ codeUnits (Utf8.decode post) ∧
    written = pre ++ Utf8.encode (fromUnits newString) ++ post

/-- An `edit_file` that goes through is unambiguous and keeps the other bytes. -/
def FileEditLocal (path : Str) (prev : Bytes) (oldString newString : List Nat) : Prop :=
  ∀ written, editFileContent ⟨path, oldString, newString, false⟩ (some prev) = .ok written →
    (∃ i, ∀ j, OccursAt oldString (codeUnits (Utf8.decode prev)) j ↔ j = i) ∧
      KeepsRest prev oldString newString written

/-- The text to replace is whole characters, between valid UTF-8. -/
def ValidAround (oldString : List Nat) (prev : Bytes) : Prop :=
  ∃ before region after, prev = Utf8.encode before ++ region ++ Utf8.encode after ∧
    codeUnits (Utf8.decode region) = oldString

theorem unambiguous_iff {prev oldString newString : List α} :
    Unambiguous prev oldString newString ↔
      (countOccurrences prev oldString = 1 → oldString ≠ newString →
        NoOverlap oldString prev) := by
  constructor
  · intro h hone hne
    obtain ⟨i, hindex, -⟩ := countOccurrences_eq_one.mp hone
    obtain ⟨_, honly, -⟩ := h _ _ (applyStringEdit_once.mpr ⟨hone, hne, rfl, i, hindex, rfl⟩)
    exact noOverlap_of_occursAt_iff honly
  · intro h next n hok
    obtain ⟨hone, hne, -, i, hindex, rfl⟩ := applyStringEdit_once.mp hok
    obtain ⟨_, hindex', honly⟩ := occursAt_iff_of_noOverlap hone (h hone hne)
    obtain rfl : i = _ := Option.some.inj (hindex.symm.trans hindex')
    exact ⟨i, honly, rfl⟩

/-- What an edit of a text file writes. -/
theorem editFileContent_once {path : Str} {prev written : Bytes} {oldString newString : List Nat} :
    editFileContent ⟨path, oldString, newString, false⟩ (some prev) = .ok written ↔
      isTextContent prev = true ∧ ∃ next n,
        applyStringEdit ⟨codeUnits (Utf8.decode prev), oldString, newString, false⟩ =
          .ok next n ∧ written = Utf8.encode (fromUnits next) := by
  simp only [editFileContent]
  cases isTextContent prev with
  | false => exact iff_of_false (fun h => by cases h) fun h => Bool.false_ne_true h.1
  | true =>
    simp only [Bool.true_eq_false, if_false, true_and]
    cases applyStringEdit ⟨codeUnits (Utf8.decode prev), oldString, newString, false⟩ with
    | failed reason count =>
      refine iff_of_false (fun h => by cases h) ?_
      rintro ⟨_, _, ⟨⟩, _⟩
    | ok next n =>
      constructor
      · rintro ⟨⟩
        exact ⟨next, n, rfl, rfl⟩
      · rintro ⟨_, _, ⟨⟩, rfl⟩
        rfl

/-- Splicing between whole characters, and writing the result. -/
theorem encode_splice {text oldString newString : List Nat} {before after : Str} {i : Nat}
    (htext : text = codeUnits before ++ oldString ++ codeUnits after)
    (honly : ∀ j, OccursAt oldString text j → j = i) :
    Utf8.encode (fromUnits (text.take i ++ newString ++ text.drop (i + oldString.length))) =
      Utf8.encode before ++ Utf8.encode (fromUnits newString) ++ Utf8.encode after := by
  obtain rfl : (codeUnits before).length = i := honly _ (htext ▸ occursAt_append _ _ _)
  rw [htext, List.append_assoc (codeUnits before), List.take_left, ← List.drop_drop, List.drop_left, List.drop_left,
    fromUnits_between, Utf8.encode_append, Utf8.encode_append]

theorem eq_of_append_eq_of_length_le {a b c a' c' : Bytes} (h : a' ++ b ++ c' = a ++ b ++ c)
    (ha : a.length ≤ a'.length) (hc : c.length ≤ c'.length) : a' = a ∧ c' = c := by
  have hlen := congrArg List.length h
  simp only [List.length_append] at hlen
  rw [List.append_assoc, List.append_assoc] at h
  obtain ⟨hleft, hright⟩ := List.append_inj h (by omega)
  exact ⟨hleft, List.append_cancel_left hright⟩

/-- An edit is unambiguous and local exactly when no second occurrence begins
inside the first, and the text replaced lies, as whole characters, between bytes
that are valid UTF-8. -/
theorem edit_unambiguous_local_iff :
    (∀ prev oldString newString : List α, Unambiguous prev oldString newString ↔
      (countOccurrences prev oldString = 1 → oldString ≠ newString →
        NoOverlap oldString prev)) ∧
    ∀ path prev oldString newString, FileEditLocal path prev oldString newString ↔
      (isTextContent prev = true →
        countOccurrences (codeUnits (Utf8.decode prev)) oldString = 1 → oldString ≠ newString →
          NoOverlap oldString (codeUnits (Utf8.decode prev)) ∧ ValidAround oldString prev) := by
  refine ⟨fun _ _ _ => unambiguous_iff, fun path prev oldString newString => ⟨?_, ?_⟩⟩
  · intro h htext hone hne
    obtain ⟨i, hindex, -⟩ := countOccurrences_eq_one.mp hone
    have hrun := applyStringEdit_once.mpr ⟨hone, hne, rfl, i, hindex, rfl⟩
    obtain ⟨⟨k, honly⟩, pre, region, post, hprev, hregion, haligned, hwritten⟩ :=
      h _ (editFileContent_once.mpr ⟨htext, _, _, hrun, rfl⟩)
    refine ⟨noOverlap_of_occursAt_iff honly, ?_⟩
    have hi : i = k := (honly i).mp (indexOf_eq_some hindex).1
    rw [encode_splice haligned fun j hj => ((honly j).mp hj).trans hi.symm] at hwritten
    -- decoding never shortens, so neither side can have changed
    obtain ⟨hpre, hpost⟩ := eq_of_append_eq_of_length_le hwritten
      (Utf8.length_le_encode_decode pre) (Utf8.length_le_encode_decode post)
    refine ⟨Utf8.decode pre, region, Utf8.decode post, ?_, hregion⟩
    rw [hpre, hpost]
    exact hprev
  · intro h written hok
    obtain ⟨htext, next, n, hrun, rfl⟩ := editFileContent_once.mp hok
    obtain ⟨hone, hne, -, i, hindex, rfl⟩ := applyStringEdit_once.mp hrun
    obtain ⟨hover, before, region, after, hprev, hregion⟩ := h htext hone hne
    obtain ⟨_, hindex', honly⟩ := occursAt_iff_of_noOverlap hone hover
    obtain rfl : i = _ := Option.some.inj (hindex.symm.trans hindex')
    have haligned : codeUnits (Utf8.decode prev) =
        codeUnits before ++ oldString ++ codeUnits after := by
      rw [hprev, List.append_assoc, Utf8.decode_encode_append, Utf8.decode_append_encode,
        codeUnits_append, codeUnits_append, hregion, List.append_assoc]
    refine ⟨⟨i, honly⟩, Utf8.encode before, region, Utf8.encode after, hprev, hregion, ?_, ?_⟩
    · rw [Utf8.decode_encode, Utf8.decode_encode]
      exact haligned
    · exact encode_splice haligned fun j hj => (honly j).mp hj

/-- `aa` is found twice in `aaa` and counted once, and a byte that is not valid
UTF-8 does not survive an edit elsewhere in its file. -/
theorem not_edit_unambiguous_local :
    ¬ Unambiguous "aaa".toList "aa".toList "b".toList ∧
      ¬ FileEditLocal "/etc/motd".toList [0xFF, 0x61] [0x61] [0x62] := by
  constructor
  · intro h
    obtain ⟨i, honly, -⟩ := h "ba".toList 1 (by decide)
    have h0 : 0 = i := (honly 0).mp (by decide)
    have h1 : 1 = i := (honly 1).mp (by decide)
    omega
  · intro h
    obtain ⟨-, pre, region, post, hprev, hregion, -, hwritten⟩ :=
      h [0xEF, 0xBF, 0xBD, 0x62] (by decide +kernel)
    -- four bytes are written, and at most two can have been kept
    have hnew : (Utf8.encode (fromUnits [0x62])).length = 1 := by decide
    have hfour := congrArg List.length hwritten
    have htwo := congrArg List.length hprev
    simp only [List.length_append, List.length_cons, List.length_nil, hnew] at hfour htwo
    omega

end HomelabMcp.EditString
