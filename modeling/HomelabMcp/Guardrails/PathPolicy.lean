import HomelabMcp.Guardrails.PathValidation
import HomelabMcp.Lib.FilePath

/-!
# The path policy and the real path

`validatePath` compares strings. The lists are of canonical absolute prefixes; here the
strings are read as paths, and the string test is compared with being above the path.

- `isUnder_iff`: a prefix passes the test when it is above the path and spelled plainly.
- `policy_on_real_path_iff`: when the verdict is that of the real path.
-/

namespace HomelabMcp.Guardrails

open SlashPath Text FilePath

variable {p : Str} {d : FilePath}

/-! ## Segments -/

/-- The string test of a prefix is a test of segments. -/
theorem isUnder_iff_segments {r q : Str} :
    isUnder r q = true ↔ segments q <+: segments r := by
  rw [isUnder, Bool.or_eq_true, beq_iff_eq, List.isPrefixOf_iff_prefix]
  exact eq_or_slash_prefix_iff

/-! ## The real path -/

/-- A path that the first three checks let through. -/
structure WellFormed (p : Str) : Prop where
  absolute : ['/'] <+: p
  noNul : nul ∉ p
  noDots : ¬dots <:+: p

/-- The real path: slashes collapsed, `.` dropped, symlinks aside. -/
def realPath (p : Str) : FilePath :=
  resolve [] p

/-- The text of a canonical absolute prefix. -/
def absolute (d : FilePath) : Str :=
  '/' :: text d

/-- The segments after the first slash that are not `.`; an empty one is a doubled slash. -/
def parts (p : Str) : List Str :=
  ((segments p).drop 1).filter fun s => decide (s ≠ here)

/-- No slash is doubled before the end of the prefix; under `/` itself only slashes are. -/
def SpelledPlainly (p : Str) (d : FilePath) : Prop :=
  if d = [] then (parts p).head?.getD [] = [] else [] ∉ (parts p).take d.length

theorem segments_absolute : segments (absolute d) = [] :: segments (text d) :=
  segments_slash [] (text d)

theorem foldl_pushPart {l : List Str} (hl : up ∉ l) (resolved : List Str) :
    l.foldl pushPart resolved = resolved ++ l.filter fun s => decide (s ≠ here) := by
  induction l generalizing resolved with
  | nil => exact (List.append_nil resolved).symm
  | cons s l ih =>
    rw [List.mem_cons, not_or] at hl
    rw [List.foldl_cons, ih hl.2]
    show (if s = up then _ else if s = here then _ else _) ++ _ = _
    rw [if_neg (Ne.symm hl.1)]
    by_cases hs : s = here
    · rw [if_pos hs, List.filter_cons_of_neg (by simpa using hs)]
    · rw [if_neg hs, List.filter_cons_of_pos (by simpa using hs), List.append_assoc]
      rfl

/-- The names among segments that are names, empty or `.`. -/
theorem map_names {l : List Str} (hl : ∀ s ∈ l, s ≠ [] → s ≠ here → IsName s) :
    (names l).map Subtype.val =
      (l.filter fun s => decide (s ≠ here)).filter fun s => decide (s ≠ []) := by
  induction l with
  | nil => rfl
  | cons s l ih =>
    have htail := ih fun t ht => hl t (List.mem_cons_of_mem s ht)
    rw [names_cons, List.map_append, htail]
    by_cases hhere : s = here
    · rw [List.filter_cons_of_neg (by simpa using hhere)]
      subst hhere
      rfl
    rw [List.filter_cons_of_pos (by simpa using hhere)]
    by_cases hnil : s = []
    · rw [List.filter_cons_of_neg (by simpa using hnil)]
      subst hnil
      rfl
    have hname := nameOf_val ⟨s, hl s List.mem_cons_self hnil hhere⟩
    rw [List.filter_cons_of_pos (by simpa using hnil), hname]
    rfl

/-- Being a prefix is being one without the empty elements, none of which stands within. -/
theorem prefix_filter_iff {l m : List Str} (hm : [] ∉ m) :
    m <+: l ↔ m <+: (l.filter fun s => decide (s ≠ [])) ∧ [] ∉ l.take m.length := by
  induction m generalizing l with
  | nil => simp
  | cons t m ih =>
    rw [List.mem_cons, not_or] at hm
    cases l with
    | nil => simp
    | cons s l =>
      by_cases hs : s = []
      · subst hs
        refine iff_of_false ?_ ?_
        · rw [List.cons_prefix_cons]
          exact fun h => hm.1 h.1.symm
        · rw [List.length_cons, List.take_succ_cons]
          exact fun h => h.2 List.mem_cons_self
      · rw [List.filter_cons_of_pos (by simpa using hs), List.cons_prefix_cons,
          List.cons_prefix_cons, List.length_cons, List.take_succ_cons, List.mem_cons, not_or,
          ih hm.2]
        constructor
        · rintro ⟨rfl, hstart, hplain⟩
          exact ⟨⟨rfl, hstart⟩, hm.1, hplain⟩
        · rintro ⟨⟨rfl, hstart⟩, -, hplain⟩
          exact ⟨rfl, hstart, hplain⟩

variable (hp : WellFormed p)

include hp

theorem WellFormed.segments_eq : ∃ l, segments p = [] :: l := by
  obtain ⟨q, rfl⟩ := hp.absolute
  exact ⟨segments q, segments_slash [] q⟩

theorem WellFormed.up_notMem : up ∉ segments p := fun h =>
  hp.noDots (infix_of_mem_segments h)

/-- Only empty segments and `.` are no names. -/
theorem WellFormed.isName {s : Str} (hs : s ∈ segments p) (hnil : s ≠ []) (hhere : s ≠ here) :
    IsName s := by
  refine ⟨hnil, slash_notMem_of_mem_segments hs, fun h => ?_, hhere, ?_⟩
  · exact hp.noNul ((infix_of_mem_segments hs).subset h)
  · rintro rfl
    exact hp.up_notMem hs

/-- The segments of the normalised path. -/
theorem WellFormed.segments_normalizePosix :
    segments (normalizePosix p) = [] :: if parts p = [] then [[]] else parts p := by
  obtain ⟨l, hl⟩ := hp.segments_eq
  have hparts : parts p = l.filter fun s => decide (s ≠ here) := by
    unfold parts
    rw [hl]
    rfl
  have hfold : (List.splitOn '/' p).foldl pushPart [] = [] :: parts p := by
    have hsegments : List.splitOn '/' p = segments p := rfl
    rw [hsegments, foldl_pushPart hp.up_notMem, hl, hparts]
    rfl
  have hslash : ∀ s ∈ [] :: parts p, '/' ∉ s := by
    intro s hs
    rcases List.mem_cons.mp hs with rfl | hs
    · exact List.not_mem_nil
    · rw [hparts] at hs
      refine slash_notMem_of_mem_segments (a := p) ?_
      rw [hl]
      exact List.mem_cons_of_mem _ (List.mem_filter.mp hs).1
  unfold normalizePosix
  rw [hfold]
  by_cases hnil : parts p = []
  · rw [hnil, if_pos rfl]
    rfl
  · obtain ⟨s, m, hm⟩ := List.exists_cons_of_ne_nil hnil
    rw [if_neg hnil]
    have hne : ['/'].intercalate ([] :: parts p) ≠ [] := by
      rw [hm, List.intercalate_cons_cons]
      exact List.cons_ne_nil _ _
    dsimp only
    rw [if_neg hne]
    exact List.splitOn_intercalate '/' hslash (List.cons_ne_nil _ _)

/-- The names of the real path are the parts that are not empty. -/
theorem WellFormed.map_realPath :
    (realPath p).map Subtype.val = (parts p).filter fun s => decide (s ≠ []) := by
  obtain ⟨l, hl⟩ := hp.segments_eq
  have hnames : realPath p = names l := by
    unfold realPath
    rw [resolve_eq hp.up_notMem, hl]
    rfl
  have hparts : parts p = l.filter fun s => decide (s ≠ here) := by
    unfold parts
    rw [hl]
    rfl
  rw [hnames, hparts]
  exact map_names fun s hs => hp.isName (hl ▸ List.mem_cons_of_mem [] hs)

/-- The string test finds the prefixes above the path that are spelled plainly. -/
theorem isUnder_iff :
    isUnder (normalizePosix p) (absolute d) = true ↔ d <+: realPath p ∧ SpelledPlainly p d := by
  rw [isUnder_iff_segments, segments_absolute, hp.segments_normalizePosix, List.cons_prefix_cons]
  unfold SpelledPlainly
  by_cases hd : d = []
  · -- Under the root, the test wants an empty segment.
    subst hd
    rw [if_pos rfl]
    have htext : segments (text []) = [[]] := rfl
    rw [htext]
    cases hparts : parts p with
    | nil => simp
    | cons s l => simp [List.cons_prefix_cons, eq_comm]
  · have hnil : [] ∉ d.map Subtype.val := by
      intro hmem
      obtain ⟨n, -, hn⟩ := List.mem_map.mp hmem
      exact n.property.1 hn
    have hmap : d <+: realPath p ↔
        d.map Subtype.val <+: (parts p).filter fun s => decide (s ≠ []) := by
      rw [← hp.map_realPath]
      exact (List.prefix_map_iff_of_injective Subtype.val_injective).symm
    have hstart := prefix_filter_iff (l := parts p) hnil
    rw [List.length_map] at hstart
    rw [if_neg hd, segments_text hd, hmap, ← hstart]
    by_cases hparts : parts p = []
    · obtain ⟨n, d, rfl⟩ := List.exists_cons_of_ne_nil hd
      rw [hparts, if_pos rfl, List.map_cons]
      refine iff_of_false ?_ ?_
      · rintro ⟨-, hcons⟩
        exact n.property.1 (List.cons_prefix_cons.mp hcons).1
      · exact fun hcons => List.cons_ne_nil _ _ (List.prefix_nil.mp hcons)
    · rw [if_neg hparts]
      simp

omit hp

/-! ## The verdict -/

variable {allowlist denylist : List FilePath}

/-- No denied prefix is the path or above it, and some allowed one is, if there are any. -/
def Permitted (allowlist denylist : List FilePath) (r : FilePath) : Prop :=
  (∀ d ∈ denylist, ¬d <+: r) ∧ (allowlist ≠ [] → ∃ a ∈ allowlist, a <+: r)

/-- What is accepted is permitted, and a well-formed path that is permitted is accepted. -/
def PolicyOnRealPath (p : Str) (allowlist denylist : List FilePath) : Prop :=
  (validatePath p (some (allowlist.map absolute)) (some (denylist.map absolute)) = none →
    Permitted allowlist denylist (realPath p)) ∧
  (WellFormed p → Permitted allowlist denylist (realPath p) →
    validatePath p (some (allowlist.map absolute)) (some (denylist.map absolute)) = none)

/-- What is accepted, with the lists read as paths. -/
theorem validatePath_accepts_iff :
    validatePath p (some (allowlist.map absolute)) (some (denylist.map absolute)) = none ↔
      WellFormed p ∧ (∀ d ∈ denylist, d <+: realPath p → ¬SpelledPlainly p d) ∧
        (allowlist ≠ [] → ∃ a ∈ allowlist, a <+: realPath p ∧ SpelledPlainly p a) := by
  rw [validatePath_eq_none_iff, Option.getD_some, Option.getD_some]
  constructor
  · rintro ⟨habsolute, hnul, hdots, hdenied, hallowed⟩
    have hp : WellFormed p := ⟨habsolute, hnul, hdots⟩
    refine ⟨hp, fun d hd habove hplain => ?_, fun hne => ?_⟩
    · have hnot := hdenied _ (List.mem_map_of_mem hd)
      rw [(isUnder_iff hp).mpr ⟨habove, hplain⟩] at hnot
      cases hnot
    · obtain ⟨s, hs, hunder⟩ := hallowed fun h => hne (List.map_eq_nil_iff.mp h)
      obtain ⟨a, ha, rfl⟩ := List.mem_map.mp hs
      exact ⟨a, ha, (isUnder_iff hp).mp hunder⟩
  · rintro ⟨hp, hdenied, hallowed⟩
    refine ⟨hp.absolute, hp.noNul, hp.noDots, fun s hs => ?_, fun hne => ?_⟩
    · obtain ⟨d, hd, rfl⟩ := List.mem_map.mp hs
      refine Bool.eq_false_iff.mpr fun hunder => ?_
      obtain ⟨habove, hplain⟩ := (isUnder_iff hp).mp hunder
      exact hdenied d hd habove hplain
    · obtain ⟨a, ha, hunder⟩ := hallowed fun h => hne (List.map_eq_nil_iff.mpr h)
      exact ⟨absolute a, List.mem_map_of_mem ha, (isUnder_iff hp).mpr hunder⟩

/-- The verdict is that of the real path exactly when, of the denied prefixes above a
well-formed path, one is spelled plainly or the allowlist refuses anyway, and without such
a denied prefix one of the allowed prefixes above the path, if there are any, is. -/
theorem policy_on_real_path_iff (p : Str) (allowlist denylist : List FilePath) :
    PolicyOnRealPath p allowlist denylist ↔
      (WellFormed p →
        ((∃ d ∈ denylist, d <+: realPath p) →
          (∃ d ∈ denylist, d <+: realPath p ∧ SpelledPlainly p d) ∨
          (allowlist ≠ [] ∧ ∀ a ∈ allowlist, a <+: realPath p → ¬SpelledPlainly p a)) ∧
        ((∀ d ∈ denylist, ¬d <+: realPath p) → (∃ a ∈ allowlist, a <+: realPath p) →
          ∃ a ∈ allowlist, a <+: realPath p ∧ SpelledPlainly p a)) := by
  unfold PolicyOnRealPath
  rw [validatePath_accepts_iff]
  constructor
  · rintro ⟨hsound, hcomplete⟩ hp
    constructor
    · rintro ⟨d, hd, habove⟩
      by_contra hnot
      rw [not_or] at hnot
      obtain ⟨hmissed, hallowed⟩ := hnot
      push Not at hmissed hallowed
      exact (hsound ⟨hp, hmissed, hallowed⟩).1 d hd habove
    · rintro hdenied ⟨a, ha, habove⟩
      obtain ⟨-, -, hallowed⟩ := hcomplete hp ⟨hdenied, fun _ => ⟨a, ha, habove⟩⟩
      exact hallowed (List.ne_nil_of_mem ha)
  · intro hcondition
    constructor
    · rintro ⟨hp, hdenied, hallowed⟩
      constructor
      · intro d hd habove
        rcases (hcondition hp).1 ⟨d, hd, habove⟩ with ⟨e, he, hae, hplain⟩ | ⟨hne, hrefused⟩
        · exact hdenied e he hae hplain
        · obtain ⟨a, ha, haabove, hplain⟩ := hallowed hne
          exact hrefused a ha haabove hplain
      · intro hne
        obtain ⟨a, ha, habove, -⟩ := hallowed hne
        exact ⟨a, ha, habove⟩
    · rintro hp ⟨hdenied, hallowed⟩
      refine ⟨hp, fun d hd habove => absurd habove (hdenied d hd), fun hne => ?_⟩
      exact (hcondition hp).2 hdenied (hallowed hne)

/-- With `/etc/shadow` denied, `/etc//shadow` is accepted. -/
theorem not_policy_on_real_path :
    ¬∀ p allowlist denylist, PolicyOnRealPath p allowlist denylist := by
  intro h
  let etc : FileName := ⟨"etc".toList, by decide⟩
  let shadow : FileName := ⟨"shadow".toList, by decide⟩
  have haccepted : validatePath "/etc//shadow".toList (some []) (some ["/etc/shadow".toList]) =
      none := by decide +kernel
  have hdenied := ((h "/etc//shadow".toList [] [[etc, shadow]]).1 haccepted).1 [etc, shadow]
    List.mem_cons_self
  have hreal : realPath "/etc//shadow".toList = [etc, shadow] := by decide +kernel
  exact hdenied (hreal ▸ List.prefix_refl _)

end HomelabMcp.Guardrails
