import HomelabMcp.Lib.CodeUnits

/-!
# The diff kept in the audit database (auditProjection.ts)

A diff is redacted and, when it takes too many bytes, cut and marked. Strings are
code units and the cap is in bytes of UTF-8; the loop takes code units off one at a
time until the rest fits.

- `trimTo_spec`: the loop stops at the longest initial segment that fits.
- `projectDiff_capped_iff`: when that segment ends between characters.
-/

namespace HomelabMcp.Audit

open Text CodeUnits

/-- auditProjection.ts:21. -/
structure DiffProjectionOpts where
  storeDiffs : Bool
  redactDiffs : Bool
  diffMaxBytes : Nat

/-- auditProjection.ts:33, the text as code units. -/
structure ProjectedDiff where
  text : Option (List Nat)
  redacted : Bool
  redactionCount : Nat
  truncated : Bool

def TRUNCATION_MARKER : List Nat :=
  newline.toNat :: codeUnits "…(diff truncated by audit.db cap)".toList

/-- The loop that takes code units off the end. -/
def trimTo (text : List Nat) (budget : Nat) : Nat → Nat
  | 0 => 0
  | k + 1 => if byteLength (text.take (k + 1)) > budget then trimTo text budget k else k + 1

/-- What is kept of a text that is cut. -/
def truncateText (text : List Nat) (diffMaxBytes : Nat) : List Nat :=
  let budget := diffMaxBytes - byteLength TRUNCATION_MARKER
  text.take (trimTo text budget (min text.length budget)) ++ TRUNCATION_MARKER

/-- auditProjection.ts:53, for whatever `redactString` does. -/
def projectDiff (redactString : List Nat → List Nat × Nat) (diff : Option (List Nat))
    (opts : DiffProjectionOpts) : ProjectedDiff :=
  match diff with
  | none => ⟨none, false, 0, false⟩
  | some diff =>
    if opts.storeDiffs = false ∨ diff = [] then ⟨none, false, 0, false⟩
    else
      let (text, redactedCount) := redactString diff
      let truncated := decide (byteLength text > opts.diffMaxBytes)
      ⟨some (if truncated then truncateText text opts.diffMaxBytes else text),
        decide (redactedCount > 0), redactedCount, truncated⟩

/-! ## The loop -/

theorem trimTo_spec (text : List Nat) (budget k : Nat) (hk : k ≤ text.length) :
    trimTo text budget k ≤ k ∧ byteLength (text.take (trimTo text budget k)) ≤ budget ∧
      ∀ j ≤ k, byteLength (text.take j) ≤ budget → j ≤ trimTo text budget k := by
  induction k with
  | zero => exact ⟨le_refl _, Nat.zero_le _, fun j hj _ => hj⟩
  | succ k ih =>
    rw [trimTo]
    by_cases hlong : byteLength (text.take (k + 1)) > budget
    · obtain ⟨hle, hfits, hlongest⟩ := ih (by omega)
      rw [if_pos hlong]
      refine ⟨by omega, hfits, fun j hj hjfits => ?_⟩
      have hne : j ≠ k + 1 := by
        rintro rfl
        omega
      exact hlongest j (by omega) hjfits
    · rw [if_neg hlong]
      exact ⟨le_refl _, not_lt.mp hlong, fun j hj _ => hj⟩

/-- Every code unit takes a byte, so that starting at the budget loses nothing. -/
theorem trimTo_min_spec (text : List Nat) (budget : Nat) :
    trimTo text budget (min text.length budget) ≤ text.length ∧
      byteLength (text.take (trimTo text budget (min text.length budget))) ≤ budget ∧
      ∀ j ≤ text.length, byteLength (text.take j) ≤ budget →
        j ≤ trimTo text budget (min text.length budget) := by
  obtain ⟨hle, hfits, hlongest⟩ := trimTo_spec text budget _ (min_le_left text.length budget)
  refine ⟨hle.trans (min_le_left _ _), hfits, fun j hj hjfits => ?_⟩
  have hunits := le_byteLength_take hj
  exact hlongest j (by omega) hjfits

theorem byteLength_marked (l : List Nat) :
    byteLength (l ++ TRUNCATION_MARKER) = byteLength l + byteLength TRUNCATION_MARKER := by
  refine byteLength_append_of_not_low ?_
  rintro _ ⟨⟩
  unfold IsLow
  decide

/-! ## The cap -/

/-- `k` code units are the longest initial segment that ends between characters
and fits together with the marker. -/
structure LongestFitting (text : List Nat) (diffMaxBytes k : Nat) : Prop where
  le_length : k ≤ text.length
  boundary : Boundary text k
  fits : byteLength (text.take k ++ TRUNCATION_MARKER) ≤ diffMaxBytes
  longest : ∀ j ≤ text.length, Boundary text j →
    byteLength (text.take j ++ TRUNCATION_MARKER) ≤ diffMaxBytes → j ≤ k

/-- What is stored fits the cap, is the whole text or its longest initial segment
that fits, marked, and has no half of a pair that the text has not. -/
structure Capped (text stored : List Nat) (diffMaxBytes : Nat) : Prop where
  fits : byteLength stored ≤ diffMaxBytes
  whole_or_cut : stored = text ∨
    ∃ k, LongestFitting text diffMaxBytes k ∧ stored = text.take k ++ TRUNCATION_MARKER
  wellFormed : WellFormed text → WellFormed stored

/-- The projection stores a capped text, whenever it stores one. -/
def ProjectionCapped (redactString : List Nat → List Nat × Nat) (diff : List Nat)
    (opts : DiffProjectionOpts) : Prop :=
  ∀ stored, (projectDiff redactString (some diff) opts).text = some stored →
    Capped (redactString diff).1 stored opts.diffMaxBytes

/-- A pair of surrogates begins three bytes before the end of the budget. -/
def PairAtCut (text : List Nat) (diffMaxBytes : Nat) : Prop :=
  ∃ k, PairAt text k ∧
    byteLength (text.take k) + 3 + byteLength TRUNCATION_MARKER = diffMaxBytes

variable {redactString : List Nat → List Nat × Nat} {diff text stored : List Nat}
  {opts : DiffProjectionOpts} {cap : Nat}

theorem text_projectDiff :
    (projectDiff redactString (some diff) opts).text = some stored ↔
      opts.storeDiffs = true ∧ diff ≠ [] ∧
        stored = if byteLength (redactString diff).1 > opts.diffMaxBytes then
          truncateText (redactString diff).1 opts.diffMaxBytes
        else (redactString diff).1 := by
  simp only [projectDiff]
  by_cases hnone : opts.storeDiffs = false ∨ diff = []
  · rw [if_pos hnone]
    refine iff_of_false nofun fun h => ?_
    rcases hnone with hoff | hempty
    · rw [h.1] at hoff
      cases hoff
    · exact h.2.1 hempty
  · obtain ⟨hon, hne⟩ := not_or.mp hnone
    rw [if_neg hnone, Bool.not_eq_false] at *
    simp only [hon, hne, ne_eq, not_false_eq_true, true_and, Option.some.injEq,
      decide_eq_true_eq]
    exact eq_comm

/-- The longest initial segment that fits ends inside a pair only when the pair
begins three bytes before the end of the budget. -/
theorem boundary_cut_iff (hcap : byteLength TRUNCATION_MARKER ≤ cap) :
    Boundary text (trimTo text (cap - byteLength TRUNCATION_MARKER)
      (min text.length (cap - byteLength TRUNCATION_MARKER))) ↔ ¬ PairAtCut text cap := by
  obtain ⟨hle, hfits, hlongest⟩ :=
    trimTo_min_spec text (cap - byteLength TRUNCATION_MARKER)
  generalize trimTo text (cap - byteLength TRUNCATION_MARKER) _ = k at hle hfits hlongest ⊢
  constructor
  · rintro hboundary ⟨j, hpair, hbytes⟩
    obtain ⟨hone, htwo⟩ := byteLength_take_pair hpair
    have hj := hpair.lt_length
    have hge := hlongest (j + 1) (by omega) (by omega)
    have hk : k = j + 1 := by
      by_contra hne
      have hmore : byteLength (text.take (j + 2)) + (k - (j + 2)) ≤ byteLength (text.take k) :=
        byteLength_take_mono (by omega) hle
      omega
    exact hboundary j hk.symm hpair
  · rintro hno j rfl hpair
    obtain ⟨hone, htwo⟩ := byteLength_take_pair hpair
    refine hno ⟨j, hpair, ?_⟩
    have hnotmore : ¬ byteLength (text.take (j + 2)) ≤ cap - byteLength TRUNCATION_MARKER := by
      intro hmore
      have hlast := hlongest (j + 2) hpair.lt_length hmore
      omega
    omega

theorem capped_truncateText (hcap : byteLength TRUNCATION_MARKER ≤ cap) (hno : ¬ PairAtCut text cap) :
    Capped text (truncateText text cap) cap := by
  have hboundary := (boundary_cut_iff hcap).mpr hno
  obtain ⟨hle, hfits, hlongest⟩ :=
    trimTo_min_spec text (cap - byteLength TRUNCATION_MARKER)
  rw [truncateText]
  generalize trimTo text (cap - byteLength TRUNCATION_MARKER) _ = k
    at hle hfits hlongest hboundary ⊢
  have hmarked : byteLength (text.take k ++ TRUNCATION_MARKER) ≤ cap := by
    rw [byteLength_marked]
    omega
  refine ⟨hmarked, Or.inr ⟨k, ⟨hle, hboundary, hmarked, fun j hj _ hjfits => ?_⟩, rfl⟩, ?_⟩
  · rw [byteLength_marked] at hjfits
    exact hlongest j hj (by omega)
  · intro hwell
    exact (wellFormed_take hwell hboundary).append
      ⟨newline :: "…(diff truncated by audit.db cap)".toList, by decide +kernel⟩

/-- The stored diff respects its cap exactly when the redacted diff fits whole or
the budget does not end three bytes into a character of four. -/
theorem projectDiff_capped_iff (hcap : byteLength TRUNCATION_MARKER ≤ opts.diffMaxBytes) :
    ProjectionCapped redactString diff opts ↔
      (opts.storeDiffs = true → diff ≠ [] →
        byteLength (redactString diff).1 ≤ opts.diffMaxBytes ∨
          ¬ PairAtCut (redactString diff).1 opts.diffMaxBytes) := by
  constructor
  · intro h hon hne
    by_cases hlong : byteLength (redactString diff).1 > opts.diffMaxBytes
    · right
      obtain ⟨hfits, hcut, -⟩ := h _ (text_projectDiff.mpr ⟨hon, hne, (if_pos hlong).symm⟩)
      rw [← boundary_cut_iff hcap]
      obtain ⟨hle, -, -⟩ := trimTo_min_spec (redactString diff).1
        (opts.diffMaxBytes - byteLength TRUNCATION_MARKER)
      rcases hcut with hwhole | ⟨k, hk, hcut⟩
      · rw [hwhole] at hfits
        omega
      · -- two initial segments that are equal end at the same index
        have hlen := congrArg List.length (List.append_cancel_right hcut)
        rw [List.length_take, List.length_take, min_eq_left hle, min_eq_left hk.le_length] at hlen
        rw [hlen]
        exact hk.boundary
    · exact Or.inl (not_lt.mp hlong)
  · intro h stored hstored
    obtain ⟨hon, hne, rfl⟩ := text_projectDiff.mp hstored
    by_cases hlong : byteLength (redactString diff).1 > opts.diffMaxBytes
    · rw [if_pos hlong]
      exact capped_truncateText hcap ((h hon hne).resolve_left (not_le.mpr hlong))
    · rw [if_neg hlong]
      exact ⟨not_lt.mp hlong, Or.inl rfl, id⟩

/-- Sixty characters of one byte, of which ten fit with the marker. -/
theorem projectDiff_capped_iff_cut :
    ProjectionCapped (fun s => (s, 0)) (codeUnits (List.replicate 60 '+'))
      ⟨true, true, byteLength TRUNCATION_MARKER + 10⟩ := by
  refine (projectDiff_capped_iff (Nat.le_add_right _ _)).mpr fun _ _ => Or.inr ?_
  rintro ⟨k, ⟨u, v, hu, -, hhigh, -⟩, -⟩
  have hplain : ∀ u ∈ codeUnits (List.replicate 60 '+'), u = 43 := by decide +kernel
  rw [hplain u (List.mem_of_getElem? hu)] at hhigh
  exact absurd hhigh.1 (by decide)

/-- A cap that leaves room for three bytes before the marker. -/
def tightOpts : DiffProjectionOpts :=
  ⟨true, true, byteLength TRUNCATION_MARKER + 3⟩

def emojiDiff : List Nat :=
  codeUnits (List.replicate 20 '😀')

/-- Half of the first emoji is kept. -/
theorem not_projectDiff_capped :
    ¬ ProjectionCapped (fun s => (s, 0)) emojiDiff tightOpts := by
  intro h
  have hstored : (projectDiff (fun s => (s, 0)) (some emojiDiff) tightOpts).text =
      some (truncateText emojiDiff tightOpts.diffMaxBytes) :=
    text_projectDiff.mpr ⟨rfl, by decide +kernel, (if_pos (by decide +kernel)).symm⟩
  obtain ⟨s, hs⟩ := (h _ hstored).wellFormed ⟨_, rfl⟩
  -- well-formed code units come back from their characters
  have hback := fromUnits_codeUnits s
  rw [← hs] at hback
  rw [← hback] at hs
  exact absurd hs (by decide +kernel)

end HomelabMcp.Audit
