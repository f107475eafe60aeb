import Mathlib.Data.List.Basic
import Mathlib.Order.Lattice

/-!
# Longest common subsequences and edit scripts

What a line diff has to compute, over an arbitrary type of lines.

- `IsLongestCommon n a b`: `n` is the length of a longest common subsequence.
  The recurrences `cons_same` and `cons_ne` fill a table of suffixes, and their
  mirror images `concat_same` and `concat_ne` a table of initial segments.
- `Edit`: a script keeps, deletes and inserts lines. `changed_le`: a script that
  keeps as many lines as a longest common subsequence has changes fewest.
-/

namespace HomelabMcp.Lcs

variable {α : Type*}

/-- `n` is the length of a longest common subsequence of `a` and `b`. -/
def IsLongestCommon (n : Nat) (a b : List α) : Prop :=
  (∃ c : List α, c.Sublist a ∧ c.Sublist b ∧ c.length = n) ∧
    ∀ c : List α, c.Sublist a → c.Sublist b → c.length ≤ n

namespace IsLongestCommon

variable {n p q : Nat} {a b : List α} {x y : α}

theorem unique (hp : IsLongestCommon p a b) (hq : IsLongestCommon q a b) : p = q := by
  obtain ⟨c, hca, hcb, rfl⟩ := hp.1
  obtain ⟨d, hda, hdb, rfl⟩ := hq.1
  exact le_antisymm (hq.2 c hca hcb) (hp.2 d hda hdb)

theorem symm (h : IsLongestCommon n a b) : IsLongestCommon n b a := by
  obtain ⟨⟨c, hca, hcb, hlen⟩, hmax⟩ := h
  exact ⟨⟨c, hcb, hca, hlen⟩, fun d hdb hda => hmax d hda hdb⟩

theorem nil_left (b : List α) : IsLongestCommon 0 [] b := by
  refine ⟨⟨[], List.nil_sublist _, List.nil_sublist _, rfl⟩, fun c hc _ => ?_⟩
  rw [List.sublist_nil.mp hc, List.length_nil]

theorem nil_right (a : List α) : IsLongestCommon 0 a [] :=
  (nil_left a).symm

/-- Two lists that begin with the same line share it. -/
theorem cons_same (h : IsLongestCommon n a b) : IsLongestCommon (n + 1) (x :: a) (x :: b) := by
  obtain ⟨⟨c, hca, hcb, hlen⟩, hmax⟩ := h
  refine ⟨⟨x :: c, hca.cons_cons x, hcb.cons_cons x, by rw [List.length_cons, hlen]⟩, ?_⟩
  intro d hda hdb
  -- without its first line the subsequence lies in both tails
  have htail : d.tail.length ≤ n := hmax d.tail hda.tail hdb.tail
  rw [List.length_tail] at htail
  omega

/-- A common subsequence of lists that begin with different lines gives up one
of the two. -/
theorem cons_ne (hne : x ≠ y) (hp : IsLongestCommon p a (y :: b))
    (hq : IsLongestCommon q (x :: a) b) : IsLongestCommon (max p q) (x :: a) (y :: b) := by
  constructor
  · rcases le_total p q with hpq | hqp
    · obtain ⟨c, hca, hcb, hlen⟩ := hq.1
      exact ⟨c, hca, hcb.cons y, by omega⟩
    · obtain ⟨c, hca, hcb, hlen⟩ := hp.1
      exact ⟨c, hca.cons x, hcb, by omega⟩
  · intro d hda hdb
    cases d with
    | nil => exact Nat.zero_le _
    | cons z d =>
      by_cases hz : z = x
      · subst hz
        exact (hq.2 _ hda (hdb.of_cons_of_ne hne)).trans (le_max_right p q)
      · exact (hp.2 _ (hda.of_cons_of_ne hz) hdb).trans (le_max_left p q)

theorem reverse (h : IsLongestCommon n a b) : IsLongestCommon n a.reverse b.reverse := by
  obtain ⟨⟨c, hca, hcb, hlen⟩, hmax⟩ := h
  refine ⟨⟨c.reverse, hca.reverse, hcb.reverse, by rw [List.length_reverse, hlen]⟩, ?_⟩
  intro d hda hdb
  have hd := hmax d.reverse (List.sublist_reverse_iff.mp hda) (List.sublist_reverse_iff.mp hdb)
  rwa [List.length_reverse] at hd

theorem concat_same (h : IsLongestCommon n a b) :
    IsLongestCommon (n + 1) (a ++ [x]) (b ++ [x]) := by
  simpa using (h.reverse.cons_same (x := x)).reverse

theorem concat_ne (hne : x ≠ y) (hp : IsLongestCommon p a (b ++ [y]))
    (hq : IsLongestCommon q (a ++ [x]) b) :
    IsLongestCommon (max p q) (a ++ [x]) (b ++ [y]) := by
  have hp' : IsLongestCommon p a.reverse (y :: b.reverse) := by simpa using hp.reverse
  have hq' : IsLongestCommon q (x :: a.reverse) b.reverse := by simpa using hq.reverse
  simpa using (cons_ne hne hp' hq').reverse

end IsLongestCommon

/-! ## Edit scripts -/

/-- One step of a script that turns a list of lines into another. -/
inductive Edit (α : Type*)
  | keep (line : α)
  | delete (line : α)
  | insert (line : α)
  deriving DecidableEq

/-- The line of the source that the edit uses up. -/
def Edit.read : Edit α → Option α
  | .keep l => some l
  | .delete l => some l
  | .insert _ => none

/-- The line of the target that the edit puts out. -/
def Edit.written : Edit α → Option α
  | .keep l => some l
  | .delete _ => none
  | .insert l => some l

def Edit.isKeep : Edit α → Bool
  | .keep _ => true
  | _ => false

def Edit.isDelete : Edit α → Bool
  | .delete _ => true
  | _ => false

def Edit.isInsert : Edit α → Bool
  | .insert _ => true
  | _ => false

/-- The lines a script starts from. -/
def source (script : List (Edit α)) : List α :=
  script.filterMap Edit.read

/-- The lines a script ends with. -/
def target (script : List (Edit α)) : List α :=
  script.filterMap Edit.written

/-- The number of lines a script keeps. -/
def kept (script : List (Edit α)) : Nat :=
  script.countP Edit.isKeep

/-- The number of lines a script deletes or inserts. -/
def changed (script : List (Edit α)) : Nat :=
  script.countP Edit.isDelete + script.countP Edit.isInsert

/-- Every line of a script is one of the source or of the target. -/
theorem mem_source_or_target {script : List (Edit α)} {e : Edit α} {l : α} (he : e ∈ script)
    (hl : e.read = some l ∨ e.written = some l) : l ∈ source script ∨ l ∈ target script :=
  hl.imp (fun h => List.mem_filterMap.mpr ⟨e, he, h⟩) fun h => List.mem_filterMap.mpr ⟨e, he, h⟩

theorem source_map_delete (a : List α) : source (a.map Edit.delete) = a := by
  induction a with
  | nil => rfl
  | cons x a ih => exact congrArg (x :: ·) ih

theorem target_map_delete (a : List α) : target (a.map Edit.delete) = [] := by
  induction a with
  | nil => rfl
  | cons x a ih => exact ih

theorem source_map_insert (b : List α) : source (b.map Edit.insert) = [] := by
  induction b with
  | nil => rfl
  | cons y b ih => exact ih

theorem target_map_insert (b : List α) : target (b.map Edit.insert) = b := by
  induction b with
  | nil => rfl
  | cons y b ih => exact congrArg (y :: ·) ih

theorem kept_map_delete (a : List α) : kept (a.map Edit.delete) = 0 := by
  rw [kept, List.countP_map, List.countP_eq_zero]
  exact fun _ _ => Bool.false_ne_true

theorem kept_map_insert (b : List α) : kept (b.map Edit.insert) = 0 := by
  rw [kept, List.countP_map, List.countP_eq_zero]
  exact fun _ _ => Bool.false_ne_true

/-- The kept lines are a common subsequence of what a script reads and writes. -/
theorem exists_common_kept (script : List (Edit α)) :
    ∃ c : List α, c.Sublist (source script) ∧ c.Sublist (target script) ∧
      c.length = kept script := by
  induction script with
  | nil => exact ⟨[], List.Sublist.refl _, List.Sublist.refl _, rfl⟩
  | cons e script ih =>
    obtain ⟨c, hcs, hct, hlen⟩ := ih
    cases e with
    | keep l =>
      exact ⟨l :: c, hcs.cons_cons l, hct.cons_cons l, by
        rw [List.length_cons, hlen, kept, kept, List.countP_cons_of_pos (by rfl)]⟩
    | delete l =>
      exact ⟨c, hcs.cons l, hct, by rw [hlen, kept, kept, List.countP_cons_of_neg Bool.false_ne_true]⟩
    | insert l =>
      exact ⟨c, hcs, hct.cons l, by rw [hlen, kept, kept, List.countP_cons_of_neg Bool.false_ne_true]⟩

/-- Every line is kept on both sides or changed on one. -/
theorem length_source_add_target (script : List (Edit α)) :
    (source script).length + (target script).length = 2 * kept script + changed script := by
  induction script with
  | nil => rfl
  | cons e script ih =>
    cases e <;>
      simp only [source, target, kept, changed, List.filterMap_cons, Edit.read, Edit.written,
        List.length_cons, List.countP_cons, Edit.isKeep, Edit.isDelete, Edit.isInsert, if_true,
        Bool.false_eq_true, if_false] at ih ⊢ <;> omega

/-- A script that keeps a longest common subsequence changes as few lines as any
script between the same lists. -/
theorem changed_le {n : Nat} {script other : List (Edit α)}
    (hlcs : IsLongestCommon n (source script) (target script)) (hkept : kept script = n)
    (hsource : source other = source script) (htarget : target other = target script) :
    changed script ≤ changed other := by
  obtain ⟨c, hcs, hct, hlen⟩ := exists_common_kept other
  have hfewer : kept other ≤ n := by
    rw [← hlen]
    exact hlcs.2 c (hsource ▸ hcs) (htarget ▸ hct)
  have hthis := length_source_add_target script
  have hother := length_source_add_target other
  rw [hsource, htarget] at hother
  omega

end HomelabMcp.Lcs
