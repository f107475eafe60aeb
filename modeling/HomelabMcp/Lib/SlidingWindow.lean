import Mathlib.Algebra.Order.Group.Defs
import Mathlib.Algebra.Order.Monoid.Defs
import Mathlib.Algebra.Order.Sub.Basic
import Mathlib.Data.List.Basic
import Mathlib.Data.List.Induction

/-!
# Sliding windows over a list of times

The times of past attempts are a list, oldest first; those of the last `w` units
are `recent w now`. An attempt is `Sparse` when the ones of its own window, itself
among them, number fewer than `n`.

- `recent_recent`: dropping what has left the window loses nothing that a later
  window could still hold.
- `card_lt_of_sparse`: if every admitted attempt was sparse, no closed interval of
  length `w` holds `n` admitted ones.
-/

namespace HomelabMcp.SlidingWindow

universe u

variable {τ : Type u} [AddCommGroup τ] [LinearOrder τ]
variable {w now now' : τ} {l m : List τ}

/-- The times of `l` in the window of length `w` that ends now. -/
def recent (w now : τ) (l : List τ) : List τ :=
  l.filter fun t => decide (now - w ≤ t)

@[simp] theorem recent_nil : recent w now [] = [] := rfl

theorem recent_append : recent w now (l ++ m) = recent w now l ++ recent w now m :=
  List.filter_append ..

theorem recent_recent [IsOrderedAddMonoid τ] (h : now ≤ now') : recent w now' (recent w now l) = recent w now' l := by
  unfold recent
  rw [List.filter_filter]
  apply List.filter_congr
  intro t _
  -- A time in the later window is in the earlier one as well.
  have hmono : now - w ≤ now' - w := sub_le_sub_right h w
  by_cases ht : now' - w ≤ t
  · simp [ht, hmono.trans ht]
  · simp [ht]

/-- Two lists that the window at `now` does not tell apart, no later one does. -/
theorem recent_congr [IsOrderedAddMonoid τ] (h : now ≤ now') (heq : recent w now l = recent w now m) :
    recent w now' l = recent w now' m := by
  rw [← recent_recent h, heq, recent_recent h]

/-! ## Admission -/

/-- An attempt: when it was made and whether it was let through. -/
structure Attempt (τ : Type u) where
  time : τ
  admitted : Bool

/-- The admitted attempts from `a` to `b`, both included. -/
def admittedIn (a b : τ) (l : List (Attempt τ)) : List (Attempt τ) :=
  l.filter fun x => x.admitted && decide (a ≤ x.time ∧ x.time ≤ b)

/-- Every admitted attempt found fewer than `n` attempts in its window, itself
included. -/
def Sparse (w : τ) (n : Nat) (l : List (Attempt τ)) : Prop :=
  ∀ pre x post, l = pre ++ x :: post → x.admitted →
    (recent w x.time ((pre ++ [x]).map Attempt.time)).length < n

theorem sparse_nil {n : Nat} : Sparse w n [] := by
  intro pre x post h
  exact absurd h (by simp)

/-- A run stays sparse when its next attempt is. -/
theorem Sparse.snoc {n : Nat} {l : List (Attempt τ)} {x : Attempt τ} (hl : Sparse w n l)
    (hx : x.admitted → (recent w x.time ((l ++ [x]).map Attempt.time)).length < n) :
    Sparse w n (l ++ [x]) := by
  intro pre y post h hy
  rcases List.eq_nil_or_concat post with rfl | ⟨post, z, rfl⟩
  · obtain ⟨rfl, hyx⟩ := List.append_inj' h rfl
    cases hyx
    exact hx hy
  · rw [List.concat_eq_append, ← List.cons_append, ← List.append_assoc] at h
    exact hl pre y post (List.append_inj_left' h rfl) hy

theorem Sparse.of_append {n : Nat} {l m : List (Attempt τ)} (h : Sparse w n (l ++ m)) :
    Sparse w n l := by
  intro pre x post hl hx
  exact h pre x (post ++ m) (by rw [hl, List.append_assoc, List.cons_append]) hx

/-- The last admitted attempt of an interval counted all the others. -/
theorem card_lt_of_sparse [IsOrderedAddMonoid τ] {n : Nat} (hn : 0 < n) {l : List (Attempt τ)} (hl : Sparse w n l)
    (hsorted : l.Pairwise fun x y => x.time ≤ y.time) (a : τ) :
    (admittedIn a (a + w) l).length < n := by
  induction l using List.reverseRecOn with
  | nil => exact hn
  | append_singleton l x ih =>
    rw [List.pairwise_append] at hsorted
    have hle : ∀ y ∈ l, y.time ≤ x.time := fun y hy =>
      hsorted.2.2 y hy x (List.mem_singleton_self x)
    by_cases hx : x.admitted = true ∧ a ≤ x.time ∧ x.time ≤ a + w
    · -- Whatever the interval holds lies in the window of `x`.
      have hcut : x.time - w ≤ a := sub_le_iff_le_add.mpr hx.2.2
      have hsub : ((admittedIn a (a + w) (l ++ [x])).map Attempt.time).Sublist
          (recent w x.time ((l ++ [x]).map Attempt.time)) := by
        unfold recent
        rw [List.filter_map]
        apply List.Sublist.map
        apply List.monotone_filter_right
        intro y hy
        simp only [Bool.and_eq_true, decide_eq_true_eq] at hy
        simpa using hcut.trans hy.2.1
      have hlen := hsub.length_le
      rw [List.length_map] at hlen
      exact hlen.trans_lt (hl l x [] rfl hx.1)
    · have hdrop : admittedIn a (a + w) (l ++ [x]) = admittedIn a (a + w) l := by
        unfold admittedIn
        rw [List.filter_append, List.filter_cons_of_neg (by simpa using hx), List.filter_nil,
          List.append_nil]
      rw [hdrop]
      exact ih hl.of_append hsorted.1

end HomelabMcp.SlidingWindow
