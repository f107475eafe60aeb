import Mathlib.Data.List.Sort
import HomelabMcp.Lib.Digest

/-!
# Stable sorting by a key of numbers

The sorts of a scripting runtime compare strings by their code units or by
their bytes; both are the lexicographic order of a list of numbers. `sortOn key`
is the stable sort by that order.

- `sortOn_eq_of_perm`: when the keys are distinct, the sorted list depends only
  on which elements there are.
-/

namespace HomelabMcp.SortKey

/-- Lexicographic comparison, a proper initial part first. -/
def lexLe : List Nat → List Nat → Bool
  | [], _ => true
  | _ :: _, [] => false
  | a :: l, b :: m => decide (a < b) || (decide (a = b) && lexLe l m)

theorem lexLe_cons {a b : Nat} {l m : List Nat} :
    lexLe (a :: l) (b :: m) ↔ a < b ∨ (a = b ∧ lexLe l m) := by
  simp [lexLe]

theorem lexLe_total (l m : List Nat) : lexLe l m ∨ lexLe m l := by
  induction l generalizing m with
  | nil => exact Or.inl rfl
  | cons a l ih =>
    cases m with
    | nil => exact Or.inr rfl
    | cons b m =>
      rw [lexLe_cons, lexLe_cons]
      rcases Nat.lt_trichotomy a b with h | h | h
      · exact Or.inl (Or.inl h)
      · rcases ih m with hm | hm
        · exact Or.inl (Or.inr ⟨h, hm⟩)
        · exact Or.inr (Or.inr ⟨h.symm, hm⟩)
      · exact Or.inr (Or.inl h)

theorem lexLe_trans {l m n : List Nat} (h₁ : lexLe l m) (h₂ : lexLe m n) : lexLe l n := by
  induction l generalizing m n with
  | nil => rfl
  | cons a l ih =>
    cases m with
    | nil => cases h₁
    | cons b m =>
      cases n with
      | nil => cases h₂
      | cons c n =>
        rw [lexLe_cons] at h₁ h₂ ⊢
        rcases h₁ with h₁ | ⟨rfl, h₁⟩
        · rcases h₂ with h₂ | ⟨rfl, -⟩
          · exact Or.inl (Nat.lt_trans h₁ h₂)
          · exact Or.inl h₁
        · rcases h₂ with h₂ | ⟨rfl, h₂⟩
          · exact Or.inl h₂
          · exact Or.inr ⟨rfl, ih h₁ h₂⟩

theorem lexLe_antisymm {l m : List Nat} (h₁ : lexLe l m) (h₂ : lexLe m l) : l = m := by
  induction l generalizing m with
  | nil =>
    cases m with
    | nil => rfl
    | cons b m => cases h₂
  | cons a l ih =>
    cases m with
    | nil => cases h₁
    | cons b m =>
      rw [lexLe_cons] at h₁ h₂
      rcases h₁ with h₁ | ⟨rfl, h₁⟩
      · rcases h₂ with h₂ | ⟨h₂, -⟩ <;> omega
      · rcases h₂ with h₂ | ⟨-, h₂⟩
        · omega
        · rw [ih h₁ h₂]

theorem lexLe_append (l m : List Nat) : lexLe l (l ++ m) = true := by
  induction l with
  | nil => rfl
  | cons a l ih => exact lexLe_cons.mpr (Or.inr ⟨rfl, ih⟩)

section

universe u

variable {α : Type u} (key : α → List Nat)

/-- The order on elements that their keys give. -/
def keyLe (a b : α) : Prop := lexLe (key a) (key b) = true

instance : DecidableRel (keyLe key) := fun a b =>
  inferInstanceAs (Decidable (lexLe (key a) (key b) = true))

instance : Std.Total (keyLe key) := ⟨fun a b => lexLe_total (key a) (key b)⟩

instance : IsTrans α (keyLe key) := ⟨fun _ _ _ h₁ h₂ => lexLe_trans h₁ h₂⟩

/-- `l.sort((a, b) => cmp(key(a), key(b)))`, which is stable. -/
def sortOn (l : List α) : List α :=
  l.insertionSort (keyLe key)

@[simp] theorem sortOn_nil : sortOn key ([] : List α) = [] := rfl

theorem sortOn_perm (l : List α) : (sortOn key l).Perm l :=
  List.perm_insertionSort _ l

@[simp] theorem mem_sortOn {a : α} {l : List α} : a ∈ sortOn key l ↔ a ∈ l :=
  (sortOn_perm key l).mem_iff

theorem sortOn_pairwise (l : List α) : (sortOn key l).Pairwise (keyLe key) :=
  List.pairwise_insertionSort _ l

theorem sortOn_nodup {l : List α} (h : l.Nodup) : (sortOn key l).Nodup :=
  (sortOn_perm key l).nodup_iff.mpr h

/-- `l.sort((a, b) => cmp(key(b), key(a)))`, which is stable too. -/
def sortDescOn (l : List α) : List α :=
  l.insertionSort fun a b => keyLe key b a

theorem sortDescOn_perm (l : List α) : (sortDescOn key l).Perm l :=
  List.perm_insertionSort _ l

theorem sortDescOn_pairwise (l : List α) :
    (sortDescOn key l).Pairwise fun a b => keyLe key b a := by
  have : Std.Total fun a b : α => keyLe key b a := ⟨fun a b => lexLe_total (key b) (key a)⟩
  have : IsTrans α fun a b : α => keyLe key b a := ⟨fun _ _ _ h₁ h₂ => lexLe_trans h₂ h₁⟩
  exact List.pairwise_insertionSort _ l

/-- With distinct keys there is one such arrangement as well. -/
theorem sortDescOn_eq_of_perm {l m : List α} (hperm : l.Perm m) (hnd : (l.map key).Nodup) :
    sortDescOn key l = sortDescOn key m := by
  refine List.Perm.eq_of_pairwise ?_ (sortDescOn_pairwise key l) (sortDescOn_pairwise key m)
    (((sortDescOn_perm key l).trans hperm).trans (sortDescOn_perm key m).symm)
  intro a b ha hb hab hba
  exact List.inj_on_of_nodup_map hnd ((sortDescOn_perm key l).mem_iff.mp ha)
    (hperm.mem_iff.mpr ((sortDescOn_perm key m).mem_iff.mp hb)) (lexLe_antisymm hba hab)

/-- With distinct keys there is one sorted arrangement of the elements. -/
theorem sortOn_eq_of_perm {l m : List α} (hperm : l.Perm m) (hnd : (l.map key).Nodup) :
    sortOn key l = sortOn key m := by
  refine List.Perm.eq_of_pairwise ?_ (sortOn_pairwise key l)
    (sortOn_pairwise key m) (((sortOn_perm key l).trans hperm).trans (sortOn_perm key m).symm)
  intro a b ha hb hab hba
  exact List.inj_on_of_nodup_map hnd ((mem_sortOn key).mp ha)
    (hperm.mem_iff.mpr ((mem_sortOn key).mp hb)) (lexLe_antisymm hab hba)

end

/-- The order of `Buffer.compare`. -/
def byteKey (b : Bytes) : List Nat :=
  b.map UInt8.toNat

theorem byteKey_injective : Function.Injective byteKey :=
  List.map_injective_iff.mpr fun _ _ h => UInt8.toNat_inj.mp h

end HomelabMcp.SortKey
