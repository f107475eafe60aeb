import Mathlib.Data.List.Nodup
import Mathlib.Logic.Function.Basic

/-!
# One pass over a list that lists children before parents

A loop walks a list of keys, computes an item for each from the values of the
keys it has already passed, and remembers the item's own value. When the list is
sorted by a rank and an item depends on keys of higher rank only, the loop
solves its own equations: `pass_items` says that every item is the one computed
from the final values, and `pass_value` what those values are.
-/

namespace HomelabMcp.BottomUp

universe u v w

variable {κ : Type u} {ν : Type v} {β : Type w} [DecidableEq κ]

/-- The loop: items in order, and the values at the end. A key without an item
is skipped. -/
def pass (make : (κ → Option ν) → κ → Option β) (val : β → ν) :
    List κ → (κ → Option ν) → List β × (κ → Option ν)
  | [], vals => ([], vals)
  | k :: ks, vals =>
    match make vals k with
    | none => pass make val ks vals
    | some b =>
      let rest := pass make val ks (Function.update vals k (some (val b)))
      (b :: rest.1, rest.2)

/-- An item depends on the values of keys of higher rank only. -/
def Local (rank : κ → Nat) (make : (κ → Option ν) → κ → Option β) : Prop :=
  ∀ k v v', (∀ j, rank k < rank j → v j = v' j) → make v k = make v' k

variable {make : (κ → Option ν) → κ → Option β} {val : β → ν} {rank : κ → Nat}

/-- The values after a key has been visited. -/
theorem pass_cons (k : κ) (ks : List κ) (vals : κ → Option ν) :
    pass make val (k :: ks) vals =
      let rest := pass make val ks ((make vals k).elim vals
        fun b => Function.update vals k (some (val b)))
      ((make vals k).toList ++ rest.1, rest.2) := by
  rw [pass]
  cases make vals k <;> rfl

theorem pass_value_of_notMem {k : κ} {ks : List κ} (h : k ∉ ks) (vals : κ → Option ν) :
    (pass make val ks vals).2 k = vals k := by
  induction ks generalizing vals with
  | nil => rfl
  | cons j ks ih =>
    rw [List.mem_cons, not_or] at h
    rw [pass_cons]
    show (pass make val ks _).2 k = vals k
    rw [ih h.2]
    cases make vals j with
    | none => rfl
    | some b => exact Function.update_of_ne h.1 _ _

/-- Nothing the rest of the loop computes changes what the first key saw. -/
theorem make_pass (hlocal : Local rank make) {k : κ} {ks : List κ}
    (hsorted : ∀ j ∈ ks, rank j ≤ rank k) (vals : κ → Option ν) :
    make (pass make val (k :: ks) vals).2 k = make vals k := by
  refine hlocal k _ _ fun j hj => pass_value_of_notMem ?_ vals
  rw [List.mem_cons, not_or]
  refine ⟨fun h => ?_, fun hm => ?_⟩
  · rw [h] at hj
    exact Nat.lt_irrefl _ hj
  · exact Nat.lt_irrefl _ (Nat.lt_of_lt_of_le hj (hsorted j hm))

theorem pass_items (hlocal : Local rank make) {ks : List κ}
    (hsorted : ks.Pairwise fun a b => rank b ≤ rank a) (vals : κ → Option ν) :
    (pass make val ks vals).1 = ks.filterMap (make (pass make val ks vals).2) := by
  induction ks generalizing vals with
  | nil => rfl
  | cons k ks ih =>
    rw [List.pairwise_cons] at hsorted
    have hk : make (pass make val (k :: ks) vals).2 k = make vals k :=
      make_pass hlocal hsorted.1 vals
    rw [List.filterMap_cons, hk]
    have htail := ih hsorted.2 ((make vals k).elim vals
      fun b => Function.update vals k (some (val b)))
    rw [pass_cons]
    dsimp only
    rw [htail]
    cases make vals k <;> rfl

/-- The value of a listed key that had none before is that of its item. -/
theorem pass_value (hlocal : Local rank make) {k : κ} {ks : List κ}
    (hsorted : ks.Pairwise fun a b => rank b ≤ rank a) (hnd : ks.Nodup) (hk : k ∈ ks)
    (vals : κ → Option ν) (hnone : ∀ j ∈ ks, vals j = none) :
    (pass make val ks vals).2 k = (make (pass make val ks vals).2 k).map val := by
  induction ks generalizing vals with
  | nil => cases hk
  | cons j ks ih =>
    rw [List.pairwise_cons] at hsorted
    rw [List.nodup_cons] at hnd
    rcases List.mem_cons.mp hk with rfl | hmem
    · rw [make_pass hlocal hsorted.1, pass_cons]
      show (pass make val ks _).2 k = _
      rw [pass_value_of_notMem hnd.1]
      cases make vals k with
      | none => exact hnone k List.mem_cons_self
      | some b => exact Function.update_self _ _ _
    · rw [pass_cons]
      refine ih hsorted.2 hnd.2 hmem _ fun i hi => ?_
      have hne : i ≠ j := fun h => hnd.1 (h ▸ hi)
      have hi' := hnone i (List.mem_cons_of_mem j hi)
      cases make vals j with
      | none => exact hi'
      | some b => exact (Function.update_of_ne hne _ _).trans hi'

end HomelabMcp.BottomUp
