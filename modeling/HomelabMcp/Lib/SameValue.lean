import HomelabMcp.Lib.Json
import Mathlib.Data.Option.Basic
import Mathlib.Data.List.Forall2

/-!
# Values that are the same

Two values are the same when they have the same shape with the same leaves; the order in
which an object lists its members does not count, and neither does a member that a later
one of its name hides.

- `SameValue.refl`: every value is the same as itself.
- `SameValue.get?`: members of the same value are the same.
-/

namespace HomelabMcp.Json

open SlashPath

inductive SameValue : Json → Json → Prop
  | null : SameValue null null
  | bool (b : Bool) : SameValue (bool b) (bool b)
  | num (literal : Str) : SameValue (num literal) (num literal)
  | str (s : Str) : SameValue (str s) (str s)
  | arr {l m : List Json} : List.Forall₂ SameValue l m → SameValue (arr l) (arr m)
  | obj {l m : List (Str × Json)} :
    (∀ name, Option.Rel SameValue ((obj l).get? name) ((obj m).get? name)) →
      SameValue (obj l) (obj m)

variable {v w : Json}

/-- A member of an object is smaller than it. -/
theorem sizeOf_get? {l : List (Str × Json)} {name : Str} (h : (obj l).get? name = some v) :
    sizeOf v < sizeOf (obj l) := by
  obtain ⟨member, hfind, rfl⟩ := Option.map_eq_some_iff.mp h
  have hlist := List.sizeOf_lt_of_mem (List.mem_reverse.mp (List.mem_of_find?_eq_some hfind))
  have hpair : sizeOf member = 1 + sizeOf member.1 + sizeOf member.2 := rfl
  have hobj : sizeOf (obj l) = 1 + sizeOf l := obj.sizeOf_spec l
  omega

theorem SameValue.refl : ∀ v : Json, SameValue v v
  | .null => .null
  | .bool b => .bool b
  | .num literal => .num literal
  | .str s => .str s
  | .arr l => .arr (List.forall₂_same.mpr fun v _ => refl v)
  | .obj l => .obj fun name => by
    cases hget : (Json.obj l).get? name with
    | none => exact Option.Rel.none
    | some v => exact Option.Rel.some (refl v)
termination_by v => sizeOf v
decreasing_by
  · have hlist := List.sizeOf_lt_of_mem ‹_ ∈ l›
    have harr : sizeOf (Json.arr l) = 1 + sizeOf l := Json.arr.sizeOf_spec l
    omega
  · exact sizeOf_get? hget

/-- Neither value has the member, or both have it and it is the same. -/
theorem SameValue.get? (h : SameValue v w) (name : Str) :
    v.get? name = none ∧ w.get? name = none ∨
      ∃ a b, v.get? name = some a ∧ w.get? name = some b ∧ SameValue a b := by
  have hrel : Option.Rel SameValue (v.get? name) (w.get? name) := by
    cases h with
    | obj hmembers => exact hmembers name
    | _ => exact Option.Rel.none
  generalize v.get? name = a, w.get? name = b at hrel ⊢
  cases hrel with
  | none => exact Or.inl ⟨rfl, rfl⟩
  | some hab => exact Or.inr ⟨_, _, rfl, rfl, hab⟩

/-- Which names an object has. -/
theorem isSome_get? {l : List (Str × Json)} {name : Str} :
    ((obj l).get? name).isSome = true ↔ name ∈ l.map Prod.fst := by
  show (Option.map Prod.snd (l.reverse.find? fun m => m.1 == name)).isSome = true ↔ _
  rw [Option.isSome_map, List.find?_isSome]
  simp

end HomelabMcp.Json
