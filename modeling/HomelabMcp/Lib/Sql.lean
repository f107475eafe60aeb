import Mathlib.Data.List.Infix

/-!
# Conditions of a query

A condition on a row is true, false or NULL, and a row is selected when its
conditions together are true. Columns may be NULL, and what is computed from NULL is
NULL.

- `selects_iff`: a row is selected when each condition is true of it.
- `instr_pos_iff`: where `instr` finds something.
-/

namespace HomelabMcp.Sql

variable {α ρ : Type}

/-- `none` is NULL. -/
abbrev Truth := Option Bool

namespace Truth

def and : Truth → Truth → Truth
  | some false, _ | _, some false => some false
  | some true, some true => some true
  | none, some true | some true, none | none, none => none

def or : Truth → Truth → Truth
  | some true, _ | _, some true => some true
  | some false, some false => some false
  | none, some false | some false, none | none, none => none

/-- A `WHERE` keeps what is true, not what is NULL. -/
def holds (t : Truth) : Bool :=
  t == some true

@[simp] theorem holds_some (b : Bool) : holds (some b) = b := by
  cases b <;> rfl

@[simp] theorem holds_none : holds none = false := rfl

@[simp] theorem holds_and (s t : Truth) : (s.and t).holds = (s.holds && t.holds) := by
  rcases s with _ | _ | _ <;> rcases t with _ | _ | _ <;> rfl

@[simp] theorem holds_or (s t : Truth) : (s.or t).holds = (s.holds || t.holds) := by
  rcases s with _ | _ | _ <;> rcases t with _ | _ | _ <;> rfl

end Truth

/-- A comparison of two columns. -/
def compare (r : α → α → Bool) (a b : Option α) : Truth :=
  a.bind fun x => b.map fun y => r x y

/-- `a = b`. -/
def equals [DecidableEq α] : Option α → Option α → Truth :=
  compare fun x y => decide (x = y)

@[simp] theorem holds_compare_some (r : α → α → Bool) (a : Option α) (y : α) :
    (compare r a (some y)).holds = a.any fun x => r x y := by
  cases a with
  | none => rfl
  | some x => exact Truth.holds_some _

theorem holds_equals_some [DecidableEq α] (a : Option α) (y : α) :
    (equals a (some y)).holds = decide (a = some y) := by
  cases a with
  | none => rfl
  | some x => simp [equals, compare]

/-! ## Substrings -/

/-- Where `t` first occurs in `s`, counted from 1; 0 when it does not. -/
def position [BEq α] (s t : List α) : Nat :=
  ((s.tails.findIdx? fun tail => t.isPrefixOf tail).map (· + 1)).getD 0

/-- `instr(s, t)`. -/
def instr [BEq α] (s t : Option (List α)) : Option Nat :=
  s.bind fun s => t.map fun t => position s t

/-- `n > 0`. -/
def positive (n : Option Nat) : Truth :=
  n.map fun n => decide (0 < n)

theorem position_pos_iff [BEq α] [LawfulBEq α] {s t : List α} : 0 < position s t ↔ t <:+: s := by
  unfold position
  rw [List.infix_iff_prefix_suffix]
  cases h : s.tails.findIdx? fun tail => t.isPrefixOf tail with
  | none =>
    rw [List.findIdx?_eq_none_iff] at h
    refine iff_of_false (Nat.lt_irrefl 0) ?_
    rintro ⟨tail, hstart, hsuffix⟩
    have hno := h tail ((List.mem_tails _ _).mpr hsuffix)
    rw [List.isPrefixOf_iff_prefix.mpr hstart] at hno
    cases hno
  | some i =>
    refine iff_of_true (Nat.succ_pos i) ?_
    obtain ⟨hlt, hstart, -⟩ := List.findIdx?_eq_some_iff_getElem.mp h
    exact ⟨_, List.isPrefixOf_iff_prefix.mp hstart, (List.mem_tails _ _).mp (List.getElem_mem hlt)⟩

/-- NULL contains nothing, not even the empty text. -/
theorem instr_pos_iff [BEq α] [LawfulBEq α] {s : Option (List α)} {t : List α} :
    (positive (instr s (some t))).holds = true ↔ ∃ text, s = some text ∧ t <:+: text := by
  cases s with
  | none => simp [instr, positive]
  | some text => simp [instr, positive, position_pos_iff]

/-! ## Rows -/

/-- `WHERE c₁ AND c₂ AND …`. -/
def selects (conditions : List (ρ → Truth)) (row : ρ) : Bool :=
  Truth.holds (conditions.foldl (fun t c => Truth.and t (c row)) (some true))

theorem selects_iff {conditions : List (ρ → Truth)} {row : ρ} :
    selects conditions row = true ↔ ∀ c ∈ conditions, (c row).holds = true := by
  have hfold : ∀ (cs : List (ρ → Truth)) (t : Truth),
      (cs.foldl (fun t c => Truth.and t (c row)) t).holds = true ↔
        t.holds = true ∧ ∀ c ∈ cs, (c row).holds = true := by
    intro cs
    induction cs with
    | nil => simp
    | cons c cs ih =>
      intro t
      rw [List.foldl_cons, ih, Truth.holds_and, Bool.and_eq_true, List.forall_mem_cons, and_assoc]
  unfold selects
  rw [hfold]
  exact and_iff_right rfl

end HomelabMcp.Sql
