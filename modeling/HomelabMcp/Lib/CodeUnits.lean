import HomelabMcp.Lib.Text
import HomelabMcp.Lib.Utf8

/-!
# Code units measured in bytes

A string of a runtime is code units; stored, it is UTF-8, where half a pair takes
the three bytes of a replacement character and the whole pair four.

- `byteLength_take_lt`: every code unit adds bytes, so that lengths of initial
  segments determine them.
- `wellFormed_take`: cutting between characters leaves no half pair.
-/

namespace HomelabMcp.CodeUnits

open Text

/-- `Buffer.byteLength(s, "utf8")`. -/
def byteLength (units : List Nat) : Nat :=
  (Utf8.encode (fromUnits units)).length

/-- A surrogate pair begins at index `k`. -/
def PairAt (units : List Nat) (k : Nat) : Prop :=
  ∃ u v, units[k]? = some u ∧ units[k + 1]? = some v ∧ IsHigh u ∧ IsLow v

/-- Index `k` does not lie inside a pair. -/
def Boundary (units : List Nat) (k : Nat) : Prop :=
  ∀ j, j + 1 = k → ¬ PairAt units j

/-- Every half of a pair has its other half. -/
def WellFormed (units : List Nat) : Prop :=
  ∃ s : Str, units = codeUnits s

variable {units : List Nat} {k : Nat}

theorem not_isLow_of_isHigh {u : Nat} (h : IsHigh u) : ¬ IsLow u := by
  unfold IsHigh at h
  unfold IsLow
  omega

theorem PairAt.lt_length (h : PairAt units k) : k + 1 < units.length := by
  obtain ⟨-, v, -, hv, -⟩ := h
  exact (List.getElem?_eq_some_iff.mp hv).1

/-! ## Lengths -/

theorem byteLength_append {l m : List Nat}
    (h : ∀ u ∈ l.getLast?, ∀ v ∈ m.head?, ¬ (IsHigh u ∧ IsLow v)) :
    byteLength (l ++ m) = byteLength l + byteLength m := by
  rw [byteLength, fromUnits_append h, Utf8.encode_append, List.length_append]
  rfl

theorem byteLength_append_of_not_low {l m : List Nat} (h : ∀ v ∈ m.head?, ¬ IsLow v) :
    byteLength (l ++ m) = byteLength l + byteLength m :=
  byteLength_append fun _ _ v hv hpair => h v hv hpair.2

theorem byteLength_singleton (u : Nat) : byteLength [u] = Utf8.width (unitChar u).toNat := by
  rw [byteLength, fromUnits, Utf8.encode_cons, Utf8.encode_nil, List.append_nil,
    Utf8.length_encodeChar]

theorem byteLength_singleton_pos (u : Nat) : 0 < byteLength [u] := by
  rw [byteLength_singleton]
  exact Utf8.one_le_width _

/-- Half a pair is stored as a replacement character. -/
theorem byteLength_half {u : Nat} (h : IsHigh u) : byteLength [u] = 3 := by
  have hhalf : unitChar u = Char.ofNat 0xFFFD := if_pos ⟨h.1, by have := h.2; omega⟩
  rw [byteLength_singleton, hhalf]
  rfl

theorem byteLength_pair {u v : Nat} (hu : IsHigh u) (hv : IsLow v) : byteLength [u, v] = 4 := by
  obtain ⟨hu1, hu2⟩ := hu
  obtain ⟨hv1, hv2⟩ := hv
  have hvalid : (0x10000 + (u - 0xD800) * 0x400 + (v - 0xDC00)).isValidChar := by
    rw [Nat.isValidChar]
    omega
  have hvalue : (Char.ofNat (0x10000 + (u - 0xD800) * 0x400 + (v - 0xDC00))).toNat =
      0x10000 + (u - 0xD800) * 0x400 + (v - 0xDC00) := by
    rw [Char.ofNat, dif_pos hvalid]
    rfl
  rw [byteLength, fromUnits, if_pos ⟨hu1, hu2, hv1, hv2⟩, fromUnits, Utf8.encode_cons,
    Utf8.encode_nil, List.append_nil, Utf8.length_encodeChar, hvalue, Utf8.width,
    if_neg (by omega), if_neg (by omega), if_neg (by omega)]

theorem take_succ_eq {u : Nat} (h : units[k]? = some u) :
    units.take (k + 1) = units.take k ++ [u] := by
  rw [List.take_add_one, h]
  rfl

/-- The three lengths around a pair. -/
theorem byteLength_take_pair (h : PairAt units k) :
    byteLength (units.take (k + 1)) = byteLength (units.take k) + 3 ∧
      byteLength (units.take (k + 2)) = byteLength (units.take k) + 4 := by
  obtain ⟨u, v, hu, hv, hhigh, hlow⟩ := h
  constructor
  · rw [take_succ_eq hu, byteLength_append_of_not_low, byteLength_half hhigh]
    rintro _ ⟨⟩
    exact not_isLow_of_isHigh hhigh
  · rw [take_succ_eq hv, take_succ_eq hu, List.append_assoc, List.singleton_append,
      byteLength_append_of_not_low, byteLength_pair hhigh hlow]
    rintro _ ⟨⟩
    exact not_isLow_of_isHigh hhigh

/-- Each code unit makes the text longer, the second half of a pair by one byte. -/
theorem byteLength_take_lt (hk : k < units.length) :
    byteLength (units.take k) < byteLength (units.take (k + 1)) := by
  by_cases hpair : ∃ j, j + 1 = k ∧ PairAt units j
  · obtain ⟨j, rfl, hj⟩ := hpair
    obtain ⟨hone, htwo⟩ := byteLength_take_pair hj
    show _ < byteLength (units.take (j + 2))
    omega
  · have hunit : units[k]? = some units[k] := List.getElem?_eq_getElem hk
    have hpos := byteLength_singleton_pos units[k]
    rw [take_succ_eq hunit, byteLength_append]
    · omega
    · rintro u hu _ ⟨⟩ ⟨hhigh, hlow⟩
      cases k with
      | zero => cases hu
      | succ j =>
        refine hpair ⟨j, rfl, u, _, ?_, hunit, hhigh, hlow⟩
        rwa [Option.mem_def, List.getLast?_take, if_neg (Nat.succ_ne_zero j), Nat.add_sub_cancel,
          List.getElem?_eq_getElem (by omega), Option.some_or,
          ← List.getElem?_eq_getElem (by omega)] at hu

theorem byteLength_take_mono {j : Nat} (hjk : j ≤ k) (hk : k ≤ units.length) :
    byteLength (units.take j) + (k - j) ≤ byteLength (units.take k) := by
  induction k, hjk using Nat.le_induction with
  | base => omega
  | succ k hjk ih =>
    have hnext : byteLength (units.take k) < byteLength (units.take (k + 1)) :=
      byteLength_take_lt (by omega)
    have hrest := ih (by omega)
    omega

theorem le_byteLength_take (hk : k ≤ units.length) : k ≤ byteLength (units.take k) := by
  have h := byteLength_take_mono (Nat.zero_le k) hk
  omega

/-! ## Cutting between characters -/

theorem WellFormed.append {l m : List Nat} (hl : WellFormed l) (hm : WellFormed m) :
    WellFormed (l ++ m) := by
  obtain ⟨s, rfl⟩ := hl
  obtain ⟨t, rfl⟩ := hm
  exact ⟨s ++ t, (codeUnits_append s t).symm⟩

theorem Boundary.of_cons {u : Nat} (h : Boundary (u :: units) (k + 1)) : Boundary units k := by
  rintro j rfl ⟨x, y, hx, hy, hpair⟩
  exact h (j + 1) rfl ⟨x, y, hx, hy, hpair⟩

theorem wellFormed_take (h : WellFormed units) (hk : Boundary units k) :
    WellFormed (units.take k) := by
  obtain ⟨s, rfl⟩ := h
  induction s generalizing k with
  | nil => exact ⟨[], by rw [codeUnits, List.flatMap_nil, List.take_nil]⟩
  | cons c s ih =>
    cases k with
    | zero => exact ⟨[], rfl⟩
    | succ k =>
      have hwhole : ∀ l, WellFormed l → WellFormed (charUnits c ++ l) := fun l hl =>
        WellFormed.append ⟨[c], by rw [codeUnits, List.flatMap_singleton]⟩ hl
      have hcons : codeUnits (c :: s) = charUnits c ++ codeUnits s := List.flatMap_cons
      rw [hcons] at hk ⊢
      by_cases hc : c.toNat < 0x10000
      · have hunits : charUnits c = [c.toNat] := if_pos hc
        rw [hunits] at hk hwhole ⊢
        exact hwhole _ (ih hk.of_cons)
      · have hscalar : c.toNat < 0xD800 ∨ (0xDFFF < c.toNat ∧ c.toNat < 0x110000) := c.valid
        have hunits : charUnits c = _ := if_neg hc
        rw [hunits] at hk hwhole ⊢
        cases k with
        | zero =>
          -- a cut inside the pair is no boundary
          refine absurd ⟨_, _, rfl, rfl, ?_, ?_⟩ (hk 0 rfl)
          · unfold IsHigh
            omega
          · unfold IsLow
            omega
        | succ k => exact hwhole _ (ih hk.of_cons.of_cons)

end HomelabMcp.CodeUnits
