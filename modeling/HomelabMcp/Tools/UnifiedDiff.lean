import HomelabMcp.Lib.Lcs
import HomelabMcp.Lib.Text

/-!
# The diff a reviewer sees (util/diff.ts)

A preview of a write is a list of rows: context, removals and additions. The
table holds lengths for the suffixes of both texts and the walk goes forward, a
removal first when both ways are as good.

- `forward_script`: the walk carries out an edit script that keeps a longest
  common subsequence.
- `computeUnifiedDiff_faithful`: what the rows, the counts and the cut are.
-/

namespace HomelabMcp.UnifiedDiff

open SlashPath Text Lcs

/-! ## Lines -/

/-- `s.replace(/\r\n/g, "\n")`. -/
def crlfToLf : Str → Str
  | [] => []
  | [c] => [c]
  | c :: d :: s =>
    if c = carriageReturn ∧ d = newline then newline :: crlfToLf s else c :: crlfToLf (d :: s)

/-- diff.ts:18. -/
def splitLines (s : Str) : List Str :=
  if s = [] then []
  else
    let split := lines (crlfToLf s)
    if split.getLast? = some [] then split.dropLast else split

/-! ## The table -/

/-- Row `i` from the row below it, filled from its end. -/
def lcsRow (line : Str) : List Str → List Nat → List Nat
  | other :: others, below :: diagonal :: row =>
    let filled := lcsRow line others (diagonal :: row)
    (if line = other then diagonal + 1 else max below (filled.headD 0)) :: filled
  | _, _ => [0]

def lcsRows (b : List Str) : List Str → List (List Nat)
  | [] => [List.replicate (b.length + 1) 0]
  | line :: a =>
    let rows := lcsRows b a
    lcsRow line b (rows.headD []) :: rows

/-- `table[i][j]` (diff.ts:28). -/
def lcsTable (a b : List Str) : Nat → Nat → Nat :=
  let rows := lcsRows b a
  fun i j => (rows.getD i []).getD j 0

/-! ## The walk -/

/-- `out` and the two counters. -/
structure DiffState where
  out : List Str
  addedLines : Nat
  removedLines : Nat

namespace DiffState

def context (s : DiffState) (line : Str) : DiffState :=
  { s with out := s.out ++ [' ' :: ' ' :: line] }

def minus (s : DiffState) (line : Str) : DiffState :=
  { s with out := s.out ++ ['-' :: ' ' :: line], removedLines := s.removedLines + 1 }

def plus (s : DiffState) (line : Str) : DiffState :=
  { s with out := s.out ++ ['+' :: ' ' :: line], addedLines := s.addedLines + 1 }

end DiffState

/-- The three loops of `computeUnifiedDiff` from `(i, j)`, where `a` and `b` are
the lines not yet walked over. -/
def forward (table : Nat → Nat → Nat) :
    List Str → List Str → Nat → Nat → DiffState → DiffState
  | x :: a, y :: b, i, j, s =>
    if x = y then forward table a b (i + 1) (j + 1) (s.context x)
    else if table (i + 1) j ≥ table i (j + 1) then forward table a (y :: b) (i + 1) j (s.minus x)
    else forward table (x :: a) b i (j + 1) (s.plus y)
  -- at most one of the two is not empty
  | a, b, _, _, s => b.foldl DiffState.plus (a.foldl DiffState.minus s)
termination_by a b => a.length + b.length

structure UnifiedDiffResult where
  diff : Str
  addedLines : Nat
  removedLines : Nat
  truncated : Bool

/-- `lines.join("\n")`. -/
def joinLines (rows : List Str) : Str :=
  [newline].intercalate rows

def truncatedRow (hidden : Nat) : Str :=
  "… (".toList ++ numeral hidden ++ " more diff lines truncated)".toList

/-- diff.ts:39. -/
def computeUnifiedDiff (prev next : Str) (maxLines : Nat) : UnifiedDiffResult :=
  let a := splitLines prev
  let b := splitLines next
  let s := forward (lcsTable a b) a b 0 0 ⟨[], 0, 0⟩
  let truncated := decide (s.out.length > maxLines)
  let shown :=
    if truncated then s.out.take maxLines ++ [truncatedRow (s.out.length - maxLines)] else s.out
  ⟨joinLines shown, s.addedLines, s.removedLines, truncated⟩

/-! ## The table holds lengths of longest common subsequences -/

/-- `row` holds the lengths for `a` against every suffix of the lines. -/
inductive RowOf (a : List Str) : List Str → List Nat → Prop
  | last {n} : IsLongestCommon n a [] → RowOf a [] [n]
  | cons {y b n row} : IsLongestCommon n a (y :: b) → RowOf a b row → RowOf a (y :: b) (n :: row)

theorem RowOf.exists_head {a b : List Str} {row : List Nat} (h : RowOf a b row) :
    ∃ n tail, row = n :: tail ∧ IsLongestCommon n a b := by
  cases h with
  | last hn => exact ⟨_, _, rfl, hn⟩
  | cons hn _ => exact ⟨_, _, rfl, hn⟩

theorem rowOf_zeros (b : List Str) : RowOf [] b (List.replicate (b.length + 1) 0) := by
  induction b with
  | nil => exact RowOf.last (IsLongestCommon.nil_left [])
  | cons y b ih => exact RowOf.cons (IsLongestCommon.nil_left (y :: b)) ih

theorem rowOf_lcsRow {a b : List Str} {row : List Nat} {line : Str} (h : RowOf a b row) :
    RowOf (line :: a) b (lcsRow line b row) := by
  induction h with
  | last _ => exact RowOf.last (IsLongestCommon.nil_right (line :: a))
  | @cons other others below row hbelow hrow ih =>
    obtain ⟨diagonal, row, rfl, hdiagonal⟩ := hrow.exists_head
    obtain ⟨right, filled, hfilled, hright⟩ := ih.exists_head
    rw [lcsRow]
    refine RowOf.cons ?_ ih
    by_cases hsame : line = other
    · rw [if_pos hsame, hsame]
      exact hdiagonal.cons_same
    · rw [if_neg hsame, hfilled]
      exact IsLongestCommon.cons_ne hsame hbelow hright

theorem rowOf_lcsRows (a b : List Str) {i : Nat} (hi : i ≤ a.length) :
    RowOf (a.drop i) b ((lcsRows b a).getD i []) := by
  induction a generalizing i with
  | nil =>
    obtain rfl : i = 0 := Nat.le_zero.mp hi
    exact rowOf_zeros b
  | cons line a ih =>
    cases i with
    | zero =>
      have hbelow : RowOf a b ((lcsRows b a).headD []) := by
        rw [List.headD_eq_head?_getD, List.head?_eq_getElem?, ← List.getD_eq_getElem?_getD]
        exact ih (Nat.zero_le _)
      exact rowOf_lcsRow hbelow
    | succ i => exact ih (Nat.le_of_succ_le_succ hi)

theorem RowOf.isLongestCommon_getD {a b : List Str} {row : List Nat} {j : Nat} (h : RowOf a b row)
    (hj : j ≤ b.length) : IsLongestCommon (row.getD j 0) a (b.drop j) := by
  induction h generalizing j with
  | last hn =>
    obtain rfl : j = 0 := Nat.le_zero.mp hj
    exact hn
  | cons hn _ ih =>
    cases j with
    | zero => exact hn
    | succ j => exact ih (Nat.le_of_succ_le_succ hj)

theorem isLongestCommon_lcsTable {a b : List Str} {i j : Nat} (hi : i ≤ a.length)
    (hj : j ≤ b.length) : IsLongestCommon (lcsTable a b i j) (a.drop i) (b.drop j) :=
  (rowOf_lcsRows a b hi).isLongestCommon_getD hj

/-! ## The rows are an edit script -/

/-- The row an edit is shown as. -/
def row : Edit Str → Str
  | .keep l => ' ' :: ' ' :: l
  | .delete l => '-' :: ' ' :: l
  | .insert l => '+' :: ' ' :: l

/-- The state after the rows of a script. -/
def DiffState.append (s : DiffState) (script : List (Edit Str)) : DiffState :=
  ⟨s.out ++ script.map row, s.addedLines + script.countP Edit.isInsert,
    s.removedLines + script.countP Edit.isDelete⟩

theorem append_nil (s : DiffState) : s.append [] = s := by
  obtain ⟨out, added, removed⟩ := s
  simp [DiffState.append]

theorem append_keep (s : DiffState) (l : Str) (script : List (Edit Str)) :
    s.append (.keep l :: script) = (s.context l).append script := by
  simp [DiffState.append, DiffState.context, row, Edit.isInsert, Edit.isDelete]

theorem append_delete (s : DiffState) (l : Str) (script : List (Edit Str)) :
    s.append (.delete l :: script) = (s.minus l).append script := by
  simp only [DiffState.append, DiffState.minus, row, List.map_cons, List.append_assoc,
    List.countP_cons, Edit.isInsert, Edit.isDelete, if_true, Bool.false_eq_true, if_false,
    DiffState.mk.injEq, List.cons_append, List.nil_append, true_and, Nat.add_zero]
  omega

theorem append_insert (s : DiffState) (l : Str) (script : List (Edit Str)) :
    s.append (.insert l :: script) = (s.plus l).append script := by
  simp only [DiffState.append, DiffState.plus, row, List.map_cons, List.append_assoc,
    List.countP_cons, Edit.isInsert, Edit.isDelete, if_true, Bool.false_eq_true, if_false,
    DiffState.mk.injEq, List.cons_append, List.nil_append, true_and, Nat.add_zero, and_true]
  omega

/-- The loop over the lines left of the old text. -/
theorem foldl_minus (a : List Str) (s : DiffState) :
    a.foldl DiffState.minus s = s.append (a.map .delete) := by
  induction a generalizing s with
  | nil => exact (append_nil s).symm
  | cons x a ih => rw [List.foldl_cons, ih, List.map_cons, append_delete]

/-- The loop over the lines left of the new text. -/
theorem foldl_plus (b : List Str) (s : DiffState) :
    b.foldl DiffState.plus s = s.append (b.map .insert) := by
  induction b generalizing s with
  | nil => exact (append_nil s).symm
  | cons y b ih => rw [List.foldl_cons, ih, List.map_cons, append_insert]

theorem drop_succ_of_drop {l : List Str} {i : Nat} {x : Str} {t : List Str}
    (h : l.drop i = x :: t) : i + 1 ≤ l.length ∧ l.drop (i + 1) = t := by
  have hlen : (l.drop i).length = t.length + 1 := by rw [h, List.length_cons]
  rw [List.length_drop] at hlen
  refine ⟨by omega, ?_⟩
  rw [← List.tail_drop, h, List.tail_cons]

/-- Removing or adding a line when the table says that nothing is lost by it. -/
theorem kept_of_ne {x y : Str} {a b : List Str} {p q n : Nat} (hne : x ≠ y)
    (hp : IsLongestCommon p a (y :: b)) (hq : IsLongestCommon q (x :: a) b) (hn : n = max p q) :
    IsLongestCommon n (x :: a) (y :: b) :=
  hn ▸ IsLongestCommon.cons_ne hne hp hq

/-- The walk carries out a script that keeps a longest common subsequence. -/
theorem forward_script {A B : List Str} {table : Nat → Nat → Nat}
    (htable : ∀ i j, i ≤ A.length → j ≤ B.length →
      IsLongestCommon (table i j) (A.drop i) (B.drop j))
    {a b : List Str} {i j : Nat} (s : DiffState) (hi : i ≤ A.length) (hj : j ≤ B.length)
    (ha : A.drop i = a) (hb : B.drop j = b) :
    ∃ script, forward table a b i j s = s.append script ∧ source script = a ∧
      target script = b ∧ IsLongestCommon (kept script) a b := by
  induction a, b, i, j, s using forward.induct table with
  | case1 a y b i j s ih =>
    obtain ⟨hi', ha'⟩ := drop_succ_of_drop ha
    obtain ⟨hj', hb'⟩ := drop_succ_of_drop hb
    obtain ⟨script, hrun, hsource, htarget, hkept⟩ := ih hi' hj' ha' hb'
    refine ⟨.keep y :: script, ?_, congrArg _ hsource, congrArg _ htarget, ?_⟩
    · rw [forward, if_pos rfl, hrun, append_keep]
    · rw [kept, List.countP_cons_of_pos (by rfl)]
      exact hkept.cons_same
  | case2 x a y b i j s hne hge ih =>
    obtain ⟨hi', ha'⟩ := drop_succ_of_drop ha
    obtain ⟨hj', hb'⟩ := drop_succ_of_drop hb
    obtain ⟨script, hrun, hsource, htarget, hkept⟩ := ih hi' hj ha' hb
    refine ⟨.delete x :: script, ?_, congrArg _ hsource, htarget, ?_⟩
    · rw [forward, if_neg hne, if_pos hge, hrun, append_delete]
    · -- the suffix of the script keeps what the cell below holds
      have hbelow := htable (i + 1) j hi' hj
      have hright := htable i (j + 1) hi hj'
      rw [ha', hb] at hbelow
      rw [ha, hb'] at hright
      rw [kept, List.countP_cons_of_neg Bool.false_ne_true]
      refine kept_of_ne hne hbelow hright ?_
      rw [max_eq_left hge]
      exact hkept.unique hbelow
  | case3 x a y b i j s hne hlt ih =>
    obtain ⟨hi', ha'⟩ := drop_succ_of_drop ha
    obtain ⟨hj', hb'⟩ := drop_succ_of_drop hb
    obtain ⟨script, hrun, hsource, htarget, hkept⟩ := ih hi hj' ha hb'
    refine ⟨.insert y :: script, ?_, hsource, congrArg _ htarget, ?_⟩
    · rw [forward, if_neg hne, if_neg hlt, hrun, append_insert]
    · have hbelow := htable (i + 1) j hi' hj
      have hright := htable i (j + 1) hi hj'
      rw [ha', hb] at hbelow
      rw [ha, hb'] at hright
      rw [kept, List.countP_cons_of_neg Bool.false_ne_true]
      refine kept_of_ne hne hbelow hright ?_
      rw [max_eq_right (by omega)]
      exact hkept.unique hright
  | case4 a b i j s hleft =>
    have hrun : forward table a b i j s = (s.append (a.map .delete)).append (b.map .insert) := by
      rw [forward, foldl_plus, foldl_minus]
      exact hleft
    cases a with
    | nil =>
      rw [List.map_nil, append_nil] at hrun
      refine ⟨b.map .insert, hrun, source_map_insert b, target_map_insert b, ?_⟩
      rw [kept_map_insert]
      exact IsLongestCommon.nil_left b
    | cons x a =>
      cases b with
      | nil =>
        rw [List.map_nil, append_nil] at hrun
        refine ⟨_, hrun, source_map_delete (x :: a), target_map_delete (x :: a), ?_⟩
        rw [kept_map_delete]
        exact IsLongestCommon.nil_right (x :: a)
      | cons y b => exact absurd rfl (hleft x a y b rfl)

/-! ## The lines and the rows fit on one line each -/

theorem newline_notMem_of_mem_splitLines {s line : Str} (h : line ∈ splitLines s) :
    newline ∉ line := by
  rw [splitLines] at h
  by_cases hs : s = []
  · rw [if_pos hs] at h
    exact absurd h List.not_mem_nil
  · rw [if_neg hs] at h
    dsimp only at h
    by_cases hlast : (lines (crlfToLf s)).getLast? = some []
    · rw [if_pos hlast] at h
      exact newline_notMem_of_mem_lines (List.mem_of_mem_dropLast h)
    · rw [if_neg hlast] at h
      exact newline_notMem_of_mem_lines h

theorem newline_notMem_marked {mark : Char} {l : Str} (hmark : newline ≠ mark)
    (hl : newline ∉ l) : newline ∉ mark :: ' ' :: l := by
  rw [List.mem_cons, List.mem_cons]
  rintro (h | h | h)
  · exact hmark h
  · exact absurd h (by decide)
  · exact hl h

/-- A row is one line of the diff. -/
theorem newline_notMem_row {e : Edit Str}
    (h : ∀ l, e.read = some l ∨ e.written = some l → newline ∉ l) : newline ∉ row e := by
  cases e with
  | keep l => exact newline_notMem_marked (by decide) (h l (Or.inl rfl))
  | delete l => exact newline_notMem_marked (by decide) (h l (Or.inl rfl))
  | insert l => exact newline_notMem_marked (by decide) (h l (Or.inr rfl))

/-- The rows of an untruncated diff are an edit script from the old lines to the
new ones with the fewest changes, the counts are those of its rows, and a diff
that is cut off shows the first rows of the same script. -/
theorem computeUnifiedDiff_faithful (prev next : Str) (maxLines : Nat) :
    ∃ script : List (Edit Str),
      source script = splitLines prev ∧ target script = splitLines next ∧
      (∀ e ∈ script, newline ∉ row e) ∧
      (computeUnifiedDiff prev next maxLines).addedLines = script.countP Edit.isInsert ∧
      (computeUnifiedDiff prev next maxLines).removedLines = script.countP Edit.isDelete ∧
      (∀ other, source other = splitLines prev → target other = splitLines next →
        changed script ≤ changed other) ∧
      (computeUnifiedDiff prev next maxLines).truncated = decide (maxLines < script.length) ∧
      (script.length ≤ maxLines →
        (computeUnifiedDiff prev next maxLines).diff = joinLines (script.map row)) ∧
      (maxLines < script.length →
        (computeUnifiedDiff prev next maxLines).diff = joinLines
          ((script.map row).take maxLines ++ [truncatedRow (script.length - maxLines)])) := by
  obtain ⟨script, hrun, hsource, htarget, hkept⟩ := forward_script
    (fun i j hi hj => isLongestCommon_lcsTable (a := splitLines prev) (b := splitLines next) hi hj)
    ⟨[], 0, 0⟩ (Nat.zero_le _) (Nat.zero_le _) List.drop_zero List.drop_zero
  have hout : (forward (lcsTable (splitLines prev) (splitLines next)) (splitLines prev)
      (splitLines next) 0 0 ⟨[], 0, 0⟩).out = script.map row := by
    rw [hrun]
    rfl
  refine ⟨script, hsource, htarget, ?_, ?_, ?_, ?_, ?_, ?_, ?_⟩
  · intro e he
    refine newline_notMem_row fun l hl => ?_
    rcases mem_source_or_target he hl with h | h
    · exact newline_notMem_of_mem_splitLines (hsource ▸ h)
    · exact newline_notMem_of_mem_splitLines (htarget ▸ h)
  · show (forward _ _ _ 0 0 _).addedLines = _
    rw [hrun]
    exact Nat.zero_add _
  · show (forward _ _ _ 0 0 _).removedLines = _
    rw [hrun]
    exact Nat.zero_add _
  · intro other hs ht
    rw [← hsource, ← htarget] at hkept
    exact changed_le hkept rfl (hs.trans hsource.symm) (ht.trans htarget.symm)
  · show decide ((forward _ _ _ 0 0 _).out.length > maxLines) = _
    rw [hout, List.length_map]
  · intro hle
    simp only [computeUnifiedDiff, hout, List.length_map]
    rw [if_neg (by simpa using hle)]
  · intro hlt
    simp only [computeUnifiedDiff, hout, List.length_map]
    rw [if_pos (by simpa using hlt)]

end HomelabMcp.UnifiedDiff
