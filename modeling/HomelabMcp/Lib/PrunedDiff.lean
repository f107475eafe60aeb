import Mathlib.Logic.Basic

/-!
# Comparing labelled trees by their labels

A tree is a partial labelling of positions, with a child of a position for every
name. When a label determines the labels of the children (as a digest folded
over them does), two trees that agree at a position agree everywhere below it,
so a comparison may skip what lies below: `agree_below`. What such a comparison
still finds is stated by `covered`: every difference lies at or below a position
that the comparison reaches, where the trees differ, and where one side is
missing unless it is the difference itself.
-/

namespace HomelabMcp.PrunedDiff

universe u v w

variable {π : Type u} {ν : Type v} {δ : Type w} (child : π → ν → π)

/-- Positions below an unlabelled one are unlabelled. -/
def Closed (h : π → Option δ) : Prop :=
  ∀ p n, h p = none → h (child p n) = none

/-- Where the labels agree, so do those of the children. -/
def Determined (h k : π → Option δ) : Prop :=
  ∀ p, h p ≠ none → h p = k p → ∀ n, h (child p n) = k (child p n)

/-- The positions a comparison from `root` reaches: it descends where both sides
are present and differ. -/
inductive Reached (h k : π → Option δ) (root : π) : π → Prop
  | root : Reached h k root root
  | step {p : π} (n : ν) : Reached h k root p → h p ≠ none → k p ≠ none → h p ≠ k p →
      Reached h k root (child p n)

variable {child} {h k : π → Option δ}

theorem Closed.child_none (hc : Closed child h) {p : π} (hp : h p = none) (names : List ν) :
    h (names.foldl child p) = none := by
  induction names generalizing p with
  | nil => exact hp
  | cons n names ih => exact ih (hc p n hp)

theorem agree_below (hd : Determined child h k) (hh : Closed child h) (hk : Closed child k)
    {p : π} (hp : h p = k p) (names : List ν) :
    h (names.foldl child p) = k (names.foldl child p) := by
  induction names generalizing p with
  | nil => exact hp
  | cons n names ih =>
    refine ih ?_
    by_cases hnone : h p = none
    · rw [hh p n hnone, hk p n (hp ▸ hnone)]
    · exact hd p hnone hp n

theorem Reached.trans {root p q : π} (h₁ : Reached child h k root p)
    (h₂ : Reached child h k p q) : Reached child h k root q := by
  induction h₂ with
  | root => exact h₁
  | step n _ hh hk hne ih => exact ih.step n hh hk hne

theorem covered (hd : Determined child h k) (hh : Closed child h) (hk : Closed child k)
    {root : π} {names : List ν} (hne : h (names.foldl child root) ≠ k (names.foldl child root)) :
    ∃ front back : List ν, names = front ++ back ∧
      Reached child h k root (front.foldl child root) ∧
      h (front.foldl child root) ≠ k (front.foldl child root) ∧
      (back = [] ∨ h (front.foldl child root) = none ∨ k (front.foldl child root) = none) := by
  induction names generalizing root with
  | nil => exact ⟨[], [], rfl, .root, hne, Or.inl rfl⟩
  | cons n names ih =>
    have hroot : h root ≠ k root := fun heq => hne (agree_below hd hh hk heq (n :: names))
    by_cases hmiss : h root = none ∨ k root = none
    · exact ⟨[], n :: names, rfl, .root, hroot, Or.inr hmiss⟩
    · rw [not_or] at hmiss
      obtain ⟨front, back, hsplit, hreach, hdiff, hend⟩ := ih hne
      refine ⟨n :: front, back, by rw [hsplit]; rfl, ?_, hdiff, hend⟩
      exact (Reached.root.step n hmiss.1 hmiss.2 hroot).trans hreach

end HomelabMcp.PrunedDiff
