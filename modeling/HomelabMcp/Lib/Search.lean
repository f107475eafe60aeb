import Mathlib.Data.List.Basic

/-!
# Searching a list for another

Literal search and splitting, over any alphabet.

- `OccursAt needle s i`: the needle is found at index `i`; occurrences may
  overlap.
- `indexOf_eq_some`: the search finds the first occurrence.
- `split_length_eq_two`: there are two pieces when, past the first occurrence,
  the needle does not occur again. An occurrence that begins inside the first one
  does not show.
-/

namespace HomelabMcp.Search

variable {α : Type*}

/-- `needle` is found at index `i` of `s`. -/
def OccursAt (needle s : List α) (i : Nat) : Prop :=
  needle <+: s.drop i

theorem OccursAt.eq_append {needle s : List α} {i : Nat} (h : OccursAt needle s i) :
    s = s.take i ++ needle ++ s.drop (i + needle.length) := by
  obtain ⟨rest, hrest⟩ := h
  have hdrop : s.drop (i + needle.length) = rest := by
    rw [← List.drop_drop, ← hrest, List.drop_left]
  rw [hdrop, List.append_assoc, hrest, List.take_append_drop]

theorem occursAt_append (before needle after : List α) :
    OccursAt needle (before ++ needle ++ after) before.length := by
  rw [OccursAt, List.append_assoc, List.drop_left]
  exact List.prefix_append needle after

theorem occursAt_drop {needle s : List α} {i j : Nat} :
    OccursAt needle (s.drop i) j ↔ OccursAt needle s (i + j) := by
  rw [OccursAt, OccursAt, List.drop_drop]

theorem occursAt_succ {needle : List α} {c : α} {s : List α} {i : Nat} :
    OccursAt needle (c :: s) (i + 1) ↔ OccursAt needle s i :=
  Iff.rfl

variable [DecidableEq α]

instance (needle s : List α) (i : Nat) : Decidable (OccursAt needle s i) :=
  inferInstanceAs (Decidable (needle <+: s.drop i))

/-- The first index at which `needle` is found. -/
def indexOf (needle : List α) : List α → Option Nat
  | [] => if needle = [] then some 0 else none
  | c :: s => if needle <+: c :: s then some 0 else (indexOf needle s).map (· + 1)

/-- The pieces between occurrences, each searched for after the end of the one
before. -/
def pieces (needle : List α) : Nat → List α → List (List α)
  | 0, s => [s]
  | fuel + 1, s =>
    match indexOf needle s with
    | none => [s]
    | some i => s.take i :: pieces needle fuel (s.drop (i + needle.length))

/-- Split at a needle that is not empty. -/
def split (needle s : List α) : List (List α) :=
  pieces needle s.length s

theorem indexOf_eq_some {needle s : List α} {i : Nat} (h : indexOf needle s = some i) :
    OccursAt needle s i ∧ ∀ j, OccursAt needle s j → i ≤ j := by
  induction s generalizing i with
  | nil =>
    rw [indexOf] at h
    by_cases hn : needle = []
    · rw [if_pos hn] at h
      cases h
      exact ⟨hn ▸ List.nil_prefix, fun j _ => Nat.zero_le j⟩
    · rw [if_neg hn] at h
      cases h
  | cons c s ih =>
    rw [indexOf] at h
    by_cases hp : needle <+: c :: s
    · rw [if_pos hp] at h
      cases h
      exact ⟨hp, fun j _ => Nat.zero_le j⟩
    · rw [if_neg hp, Option.map_eq_some_iff] at h
      obtain ⟨k, hk, rfl⟩ := h
      obtain ⟨hoccurs, hfirst⟩ := ih hk
      refine ⟨occursAt_succ.mpr hoccurs, fun j hj => ?_⟩
      cases j with
      | zero => exact absurd hj hp
      | succ j => exact Nat.succ_le_succ (hfirst j (occursAt_succ.mp hj))

theorem not_occursAt_of_indexOf_eq_none {needle s : List α} (h : indexOf needle s = none)
    (j : Nat) : ¬ OccursAt needle s j := by
  induction s generalizing j with
  | nil =>
    rw [indexOf] at h
    by_cases hn : needle = []
    · rw [if_pos hn] at h
      cases h
    · rw [OccursAt, List.drop_nil]
      exact fun hp => hn (List.prefix_nil.mp hp)
  | cons c s ih =>
    rw [indexOf] at h
    by_cases hp : needle <+: c :: s
    · rw [if_pos hp] at h
      cases h
    · rw [if_neg hp, Option.map_eq_none_iff] at h
      cases j with
      | zero => exact hp
      | succ j => exact fun hj => ih h j (occursAt_succ.mp hj)

theorem pieces_ne_nil (needle : List α) (fuel : Nat) (s : List α) : pieces needle fuel s ≠ [] := by
  cases fuel with
  | zero => exact List.cons_ne_nil _ _
  | succ fuel =>
    rw [pieces]
    cases indexOf needle s with
    | none => exact List.cons_ne_nil _ _
    | some i => exact List.cons_ne_nil _ _

/-- The whole list is one piece when the needle does not occur. -/
theorem pieces_length_eq_one {needle : List α} (hne : needle ≠ []) {fuel : Nat} {s : List α}
    (hfuel : s.length ≤ fuel) :
    (pieces needle fuel s).length = 1 ↔ indexOf needle s = none := by
  cases fuel with
  | zero =>
    obtain rfl : s = [] := List.length_eq_zero_iff.mp (Nat.le_zero.mp hfuel)
    rw [indexOf, if_neg hne]
    exact iff_of_true rfl rfl
  | succ fuel =>
    rw [pieces]
    cases indexOf needle s with
    | none => exact iff_of_true rfl rfl
    | some i =>
      have hrest := List.length_pos_iff.mpr
        (pieces_ne_nil needle fuel (s.drop (i + needle.length)))
      refine iff_of_false ?_ nofun
      rw [List.length_cons]
      omega

/-- Two pieces: one occurrence, and none that begins after its end. -/
theorem split_length_eq_two {needle : List α} (hne : needle ≠ []) {s : List α} :
    (split needle s).length = 2 ↔
      ∃ i, indexOf needle s = some i ∧ ∀ j, OccursAt needle s j → j < i + needle.length := by
  have hpos : 0 < needle.length := List.length_pos_iff.mpr hne
  rw [split]
  cases hlen : s.length with
  | zero =>
    obtain rfl : s = [] := List.length_eq_zero_iff.mp hlen
    refine iff_of_false (by rw [pieces, List.length_singleton]; omega) ?_
    rintro ⟨i, hi, -⟩
    rw [indexOf, if_neg hne] at hi
    cases hi
  | succ fuel =>
    rw [pieces]
    cases hindex : indexOf needle s with
    | none =>
      refine iff_of_false (by simp) ?_
      rintro ⟨i, hi, -⟩
      cases hi
    | some i =>
      have hshort : (s.drop (i + needle.length)).length ≤ fuel := by
        rw [List.length_drop]
        omega
      have hone : (s.take i :: pieces needle fuel (s.drop (i + needle.length))).length = 2 ↔
          indexOf needle (s.drop (i + needle.length)) = none := by
        rw [← pieces_length_eq_one hne hshort, List.length_cons]
        omega
      refine hone.trans ⟨fun hnone => ⟨i, rfl, fun j hj => ?_⟩, ?_⟩
      · by_contra hge
        obtain ⟨k, rfl⟩ := Nat.exists_eq_add_of_le (Nat.not_lt.mp hge)
        exact not_occursAt_of_indexOf_eq_none hnone k (occursAt_drop.mpr hj)
      · rintro ⟨_, ⟨⟩, hlast⟩
        cases hrest : indexOf needle (s.drop (i + needle.length)) with
        | none => rfl
        | some k =>
          have hk := hlast _ (occursAt_drop.mp (indexOf_eq_some hrest).1)
          omega

end HomelabMcp.Search
