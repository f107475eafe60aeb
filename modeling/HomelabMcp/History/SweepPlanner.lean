import HomelabMcp.Integrity.Transport

/-!
# The plan of a sweep (history/sweepPlanner.ts)

What `find` lists is split into the files to hash and the rest, and the hashes are
compared with those of the mirror. The globs and the parser of `sha256sum` are shared
with the integrity forest.

- `mem_parseFindEnumeration`: a listed file whose name fits on a line is read back.
- `flatten_chunk`: the batches are the whole list, in order.
-/

namespace HomelabMcp.History

open SlashPath Text Integrity KeyedList

structure EnumeratedFile where
  path : Str
  sizeBytes : Int
  deriving DecidableEq

/-! ## The listing -/

/-- `parseInt(s, 10)`, on numbers that a double holds; `none` for `NaN`. -/
def parseInt10 (s : Str) : Option Int :=
  let t := s.dropWhile isSpace
  let neg := t.head? = some '-'
  let body := if neg ∨ t.head? = some '+' then t.drop 1 else t
  let digits := body.takeWhile Char.isDigit
  let value : Int := Nat.ofDigitChars 10 digits 0
  if digits = [] then none else some (if neg then -value else value)

/-- `raw.replace(/\r$/, "")`. -/
def stripReturn (raw : Str) : Str :=
  if raw.getLast? = some carriageReturn then raw.dropLast else raw

def parseFindLine (raw : Str) : Option EnumeratedFile :=
  let line := stripReturn raw
  let path := (line.dropWhile (· ≠ tab)).drop 1
  if tab ∈ line then
    match parseInt10 (line.takeWhile (· ≠ tab)) with
    | some size => if path = [] then none else some ⟨path, size⟩
    | none => none
  else none

/-- sweepPlanner.ts:137. -/
def parseFindEnumeration (output : Str) : List EnumeratedFile :=
  (lines output).filterMap parseFindLine

/-- configSweep.ts:76. -/
def buildFindEnumCommand (watchPaths : List Str) (vmid : Option Nat) : Str :=
  onTarget vmid ("find ".toList ++ joinWith ' ' (watchPaths.map shQuote) ++
    " -type f -printf '%s\\t%p\\n' 2>/dev/null".toList)

/-- What `find` prints of a file: `%s\t%p\n`. -/
def findLine (f : Nat × Str) : Str :=
  numeral f.1 ++ tab :: (f.2 ++ [newline])

/-- A name that `find` prints on a line of its own, and that the line gives back. -/
def FitsLine (path : Str) : Prop :=
  path ≠ [] ∧ newline ∉ path ∧ path.getLast? ≠ some carriageReturn

instance : DecidablePred FitsLine := fun path =>
  inferInstanceAs (Decidable (path ≠ [] ∧ newline ∉ path ∧ _))

theorem numeral_cons (n : Nat) : ∃ c l, numeral n = c :: l ∧ c.isDigit := by
  cases h : numeral n with
  | nil => exact absurd h Nat.toDigits_ne_nil
  | cons c l =>
    exact ⟨c, l, rfl, isDigit_of_mem_numeral (n := n) (h ▸ List.mem_cons_self)⟩

theorem takeWhile_numeral (n : Nat) : (numeral n).takeWhile Char.isDigit = numeral n := by
  have h : (numeral n ++ []).takeWhile Char.isDigit = numeral n ++ [].takeWhile Char.isDigit :=
    List.takeWhile_append_of_pos fun _ => isDigit_of_mem_numeral
  rwa [List.takeWhile_nil, List.append_nil] at h

theorem parseInt10_numeral (n : Nat) : parseInt10 (numeral n) = some (n : Int) := by
  obtain ⟨c, l, hcl, hc⟩ := numeral_cons n
  have hplain : isSpace c = false ∧ c ≠ '-' ∧ c ≠ '+' := by
    have hbounds : 48 ≤ c.toNat ∧ c.toNat ≤ 57 := Char.isDigit_iff_toNat.mp hc
    refine ⟨?_, ?_, ?_⟩
    · unfold isSpace
      dsimp only
      simp only [Bool.or_eq_false_iff, Bool.and_eq_false_iff, decide_eq_false_iff_not,
        beq_eq_false_iff_ne]
      omega
    · rintro rfl
      exact absurd hc (by decide)
    · rintro rfl
      exact absurd hc (by decide)
  have hdrop : (numeral n).dropWhile isSpace = numeral n := by
    rw [hcl]
    exact List.dropWhile_cons_of_neg (by rw [hplain.1]; exact Bool.false_ne_true)
  have hhead : ∀ d, c ≠ d → ¬(numeral n).head? = some d := by
    intro d hne heq
    rw [hcl] at heq
    exact hne (Option.some.inj heq)
  have hneg := hhead '-' hplain.2.1
  have hpos := hhead '+' hplain.2.2
  unfold parseInt10
  simp only [hdrop, hneg, hpos, or_self, if_false, takeWhile_numeral]
  rw [if_neg (by rw [hcl]; exact List.cons_ne_nil c l)]
  rw [show Nat.ofDigitChars 10 (numeral n) 0 = n from Nat.ofDigitChars_ten_toDigits]

theorem tab_notMem_numeral (n : Nat) : tab ∉ numeral n := fun h =>
  absurd (isDigit_of_mem_numeral h) (by decide)

theorem parseFindLine_of_fits {n : Nat} {path : Str} (h : FitsLine path) :
    parseFindLine (numeral n ++ tab :: path) = some ⟨path, n⟩ := by
  have hstrip : stripReturn (numeral n ++ tab :: path) = numeral n ++ tab :: path := by
    unfold stripReturn
    refine if_neg ?_
    obtain ⟨c, l, rfl⟩ := List.exists_cons_of_ne_nil h.1
    rw [List.getLast?_append, List.getLast?_cons_cons]
    intro heq
    refine h.2.2 ?_
    cases hlast : (c :: l).getLast? with
    | none => exact absurd (List.getLast?_eq_none_iff.mp hlast) (List.cons_ne_nil c l)
    | some d =>
      rw [hlast] at heq
      exact heq
  have hbefore : ∀ c ∈ numeral n, decide (c ≠ tab) = true := by
    intro c hc
    exact decide_eq_true fun heq => tab_notMem_numeral n (heq ▸ hc)
  have htake : (numeral n ++ tab :: path).takeWhile (· ≠ tab) = numeral n := by
    rw [List.takeWhile_append_of_pos hbefore,
      List.takeWhile_cons_of_neg (by rw [decide_eq_true_iff]; exact not_not_intro rfl),
      List.append_nil]
  have hdrop : (numeral n ++ tab :: path).dropWhile (· ≠ tab) = tab :: path := by
    rw [List.dropWhile_append_of_pos hbefore,
      List.dropWhile_cons_of_neg (by rw [decide_eq_true_iff]; exact not_not_intro rfl)]
  unfold parseFindLine
  dsimp only
  rw [hstrip, htake, hdrop, if_pos (List.mem_append_right _ List.mem_cons_self),
    parseInt10_numeral]
  exact if_neg h.1

theorem lines_append (a b : Str) : lines (a ++ newline :: b) = lines a ++ lines b :=
  List.splitOn_append_cons_self a b

theorem lines_of_notMem {s : Str} (h : newline ∉ s) : lines s = [s] :=
  List.splitOn_eq_singleton h

theorem newline_notMem_line {f : Nat × Str} (h : newline ∉ f.2) :
    newline ∉ numeral f.1 ++ tab :: f.2 := by
  rw [List.mem_append, List.mem_cons]
  rintro (hnum | htab | hpath)
  · exact absurd (isDigit_of_mem_numeral hnum) (by decide)
  · exact absurd htab (by decide)
  · exact h hpath

/-- A listed file is read back, whatever else is listed. -/
theorem mem_parseFindEnumeration {files : List (Nat × Str)} {f : Nat × Str} (hf : f ∈ files)
    (hfits : FitsLine f.2) :
    (⟨f.2, f.1⟩ : EnumeratedFile) ∈ parseFindEnumeration (files.flatMap findLine) := by
  obtain ⟨before, after, rfl⟩ := List.append_of_mem hf
  have hsplit : (before ++ f :: after).flatMap findLine =
      before.flatMap findLine ++
        ((numeral f.1 ++ tab :: f.2) ++ newline :: after.flatMap findLine) := by
    rw [List.flatMap_append, List.flatMap_cons]
    unfold findLine
    simp
  have hline : numeral f.1 ++ tab :: f.2 ∈ lines ((before ++ f :: after).flatMap findLine) := by
    rw [hsplit]
    -- The lines before end with a line feed, if there are any.
    rcases before.eq_nil_or_concat' with rfl | ⟨front, g, rfl⟩
    · show _ ∈ lines ((numeral f.1 ++ tab :: f.2) ++ newline :: after.flatMap findLine)
      rw [lines_append, lines_of_notMem (newline_notMem_line hfits.2.1)]
      exact List.mem_append_left _ (List.mem_singleton_self _)
    · have hfront : (front ++ [g]).flatMap findLine ++
            ((numeral f.1 ++ tab :: f.2) ++ newline :: after.flatMap findLine) =
          (front.flatMap findLine ++ (numeral g.1 ++ tab :: g.2)) ++ newline ::
            ((numeral f.1 ++ tab :: f.2) ++ newline :: after.flatMap findLine) := by
        rw [List.flatMap_append, List.flatMap_singleton]
        unfold findLine
        simp
      rw [hfront, lines_append, lines_append,
        lines_of_notMem (newline_notMem_line hfits.2.1)]
      exact List.mem_append_right _ (List.mem_append_left _ (List.mem_singleton_self _))
  exact List.mem_filterMap.mpr ⟨_, hline, parseFindLine_of_fits hfits⟩

/-! ## The first phase -/

structure ClassifyResult where
  candidates : List Str
  excluded : List Str
  skippedOversize : List EnumeratedFile
  deriving DecidableEq

/-- Where one listed file goes (sweepPlanner.ts:76). -/
def classifyFile (excludePatterns : List Str) (sizeCapBytes : Int) (r : ClassifyResult)
    (f : EnumeratedFile) : ClassifyResult :=
  if matchesAnyGlob f.path excludePatterns then { r with excluded := r.excluded ++ [f.path] }
  else if sizeCapBytes < f.sizeBytes then { r with skippedOversize := r.skippedOversize ++ [f] }
  else { r with candidates := r.candidates ++ [f.path] }

/-- sweepPlanner.ts:66. -/
def classifyEnumeration (enumerated : List EnumeratedFile) (excludePatterns : List Str)
    (sizeCapBytes : Int) : ClassifyResult :=
  enumerated.foldl (classifyFile excludePatterns sizeCapBytes) ⟨[], [], []⟩

theorem mem_candidates_foldl {excludePatterns : List Str} {sizeCapBytes : Int} {p : Str}
    {files : List EnumeratedFile} {r : ClassifyResult}
    (h : p ∈ (files.foldl (classifyFile excludePatterns sizeCapBytes) r).candidates) :
    p ∈ r.candidates ∨ p ∈ files.map EnumeratedFile.path := by
  induction files generalizing r with
  | nil => exact Or.inl h
  | cons f files ih =>
    rw [List.foldl_cons] at h
    rw [List.map_cons, List.mem_cons]
    rcases ih h with h | h
    · unfold classifyFile at h
      split at h
      · exact Or.inl h
      · split at h
        · exact Or.inl h
        · rcases List.mem_append.mp h with h | h
          · exact Or.inl h
          · exact Or.inr (Or.inl (List.mem_singleton.mp h))
    · exact Or.inr (Or.inr h)

/-- Only listed files are hashed. -/
theorem candidates_listed {enumerated : List EnumeratedFile} {excludePatterns : List Str}
    {sizeCapBytes : Int} {p : Str}
    (h : p ∈ (classifyEnumeration enumerated excludePatterns sizeCapBytes).candidates) :
    p ∈ enumerated.map EnumeratedFile.path :=
  (mem_candidates_foldl h).resolve_left List.not_mem_nil

/-! ## The second phase -/

structure DiffResult where
  toFetch : List Str
  unchanged : List Str
  toDelete : List Str
  deriving DecidableEq

/-- What a map keyed by strings holds. -/
def valueOf (map : List (Str × Str)) (p : Str) : Option Str :=
  (lookup Prod.fst p map).map Prod.snd

/-- sweepPlanner.ts:100. -/
def diffAgainstMirror (candidates : List Str) (remoteHashes mirrorHashes : List (Str × Str))
    (mirrorPaths allRemotePaths : List Str) : DiffResult where
  toFetch := candidates.filter fun p =>
    match valueOf remoteHashes p with
    | some remote => valueOf mirrorHashes p ≠ some remote
    | none => false
  unchanged := candidates.filter fun p =>
    match valueOf remoteHashes p with
    | some remote => valueOf mirrorHashes p = some remote
    | none => false
  toDelete := mirrorPaths.filter fun p => p ∉ allRemotePaths

theorem mem_toDelete {candidates mirrorPaths allRemotePaths : List Str}
    {remoteHashes mirrorHashes : List (Str × Str)} {p : Str} :
    p ∈ (diffAgainstMirror candidates remoteHashes mirrorHashes mirrorPaths
        allRemotePaths).toDelete ↔
      p ∈ mirrorPaths ∧ p ∉ allRemotePaths := by
  show p ∈ mirrorPaths.filter _ ↔ _
  rw [List.mem_filter, decide_eq_true_iff]

/-! ## Batches -/

/-- `items.slice(i, i + n)` for `i = 0, n, 2n, …`, at most `fuel` of them. -/
def slices (n : Nat) : Nat → List Str → List (List Str)
  | 0, _ => []
  | _ + 1, [] => []
  | fuel + 1, p :: items => (p :: items).take n :: slices n fuel ((p :: items).drop n)

/-- configSweep.ts:100. -/
def chunk (items : List Str) (size : Int) : List (List Str) :=
  let n := if 1 ≤ size then size.toNat else if items.length = 0 then 1 else items.length
  slices n items.length items

theorem flatten_slices {n : Nat} (hn : 1 ≤ n) {fuel : Nat} {items : List Str}
    (h : items.length ≤ fuel) : (slices n fuel items).flatten = items := by
  induction fuel generalizing items with
  | zero =>
    obtain rfl := List.length_eq_zero_iff.mp (Nat.le_zero.mp h)
    rfl
  | succ fuel ih =>
    cases items with
    | nil => rfl
    | cons p items =>
      have hlen : ((p :: items).drop n).length ≤ fuel := by
        rw [List.length_drop, List.length_cons]
        rw [List.length_cons] at h
        omega
      show (List.take n (p :: items) :: slices n fuel (List.drop n (p :: items))).flatten = _
      rw [List.flatten_cons, ih hlen, List.take_append_drop]

theorem flatten_chunk (items : List Str) (size : Int) : (chunk items size).flatten = items := by
  refine flatten_slices ?_ le_rfl
  split
  · omega
  · split <;> omega

end HomelabMcp.History
