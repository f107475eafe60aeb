import HomelabMcp.Lib.Text
import Mathlib.Data.List.DropRight

/-!
# White space at the ends

- `trim_prepend`, `trim_append`: what is trimmed of a text that begins or ends with one
  that is not blank.
-/

namespace HomelabMcp.Text

variable {s u v : Str} {c : Char}

/-- Nothing but white space. -/
def Blank (s : Str) : Prop :=
  ∀ c ∈ s, isSpace c = true

theorem dropWhile_append_of_head (hs : ∀ c, s.head? = some c → isSpace c = false) :
    (u ++ s).dropWhile isSpace = u.dropWhile isSpace ++ s := by
  rw [List.dropWhile_append]
  split
  · next hnil =>
    rw [List.isEmpty_iff.mp hnil, List.nil_append]
    cases s with
    | nil => rfl
    | cons c s => exact List.dropWhile_cons_of_neg (by rw [hs c rfl]; exact Bool.false_ne_true)
  · rfl

theorem rdropWhile_append_of_getLast (hs : ∀ c, s.getLast? = some c → isSpace c = false) :
    (s ++ v).rdropWhile isSpace = s ++ v.rdropWhile isSpace := by
  unfold List.rdropWhile
  have hhead : ∀ c, s.reverse.head? = some c → isSpace c = false := by
    intro c hc
    rw [List.head?_reverse] at hc
    exact hs c hc
  rw [List.reverse_append, dropWhile_append_of_head hhead, List.reverse_append,
    List.reverse_reverse]

theorem head_dropWhile_isSpace (h : (s.dropWhile isSpace).head? = some c) :
    isSpace c = false := by
  have hne : s.dropWhile isSpace ≠ [] := fun hnil => by rw [hnil] at h; cases h
  rw [List.head?_eq_some_head hne] at h
  rw [← Option.some.inj h]
  exact Bool.eq_false_iff.mpr (by simpa using List.head_dropWhile_not isSpace hne)

theorem getLast_rdropWhile_isSpace (h : (s.rdropWhile isSpace).getLast? = some c) :
    isSpace c = false := by
  refine head_dropWhile_isSpace (s := s.reverse) ?_
  unfold List.rdropWhile at h
  rw [List.getLast?_reverse] at h
  exact h

theorem getLast_trim (h : (trim s).getLast? = some c) : isSpace c = false :=
  getLast_rdropWhile_isSpace h

theorem head_trim (h : (trim s).head? = some c) : isSpace c = false := by
  have hstart : trim s <+: s.dropWhile isSpace := List.rdropWhile_prefix isSpace _
  obtain ⟨t, ht⟩ := hstart
  refine head_dropWhile_isSpace (s := s) ?_
  rw [← ht, List.head?_append, h]
  rfl

/-- A text is what is trimmed of it, between white space. -/
theorem trim_spec (s : Str) :
    s = s.takeWhile isSpace ++ (trim s ++ (s.dropWhile isSpace).rtakeWhile isSpace) := by
  have hback : trim s ++ (s.dropWhile isSpace).rtakeWhile isSpace = s.dropWhile isSpace :=
    List.rdropWhile_append_rtakeWhile
  rw [hback, List.takeWhile_append_dropWhile]

theorem mem_of_mem_trim (h : c ∈ trim s) : c ∈ s := by
  rw [trim_spec s]
  exact List.mem_append_right _ (List.mem_append_left _ h)

theorem blank_takeWhile (s : Str) : Blank (s.takeWhile isSpace) :=
  fun _ hc => List.mem_takeWhile_imp hc

theorem blank_rtakeWhile (s : Str) : Blank (s.rtakeWhile isSpace) :=
  fun _ hc => List.mem_rtakeWhile_imp hc

theorem trim_blank_append (hu : Blank u) : trim (u ++ s) = trim s := by
  unfold trim
  rw [List.dropWhile_append_of_pos hu]

theorem trim_append_blank (hv : Blank v) : trim (s ++ v) = trim s := by
  show ((s ++ v).dropWhile isSpace).rdropWhile isSpace = (s.dropWhile isSpace).rdropWhile isSpace
  rw [List.dropWhile_append]
  split
  · next hnil =>
    rw [List.isEmpty_iff.mp hnil, List.dropWhile_eq_nil_iff.mpr hv]
  · unfold List.rdropWhile
    have hback : ∀ c ∈ v.reverse, isSpace c = true := fun c hc => hv c (List.mem_reverse.mp hc)
    rw [List.reverse_append, List.dropWhile_append_of_pos hback]

theorem trim_trim (s : Str) : trim (trim s) = trim s :=
  calc trim (trim s)
      = trim (s.takeWhile isSpace ++ (trim s ++ (s.dropWhile isSpace).rtakeWhile isSpace)) := by
        rw [trim_blank_append (blank_takeWhile s), trim_append_blank (blank_rtakeWhile _)]
    _ = trim s := by rw [← trim_spec]

theorem trim_prepend (hv : trim v ≠ []) :
    trim (u ++ v) = (u ++ v.takeWhile isSpace).dropWhile isSpace ++ trim v := by
  have hsplit : u ++ v =
      (u ++ v.takeWhile isSpace ++ trim v) ++ (v.dropWhile isSpace).rtakeWhile isSpace := by
    rw [List.append_assoc, List.append_assoc, ← trim_spec]
  rw [hsplit, trim_append_blank (blank_rtakeWhile _)]
  show ((u ++ v.takeWhile isSpace ++ trim v).dropWhile isSpace).rdropWhile isSpace = _
  rw [dropWhile_append_of_head fun c hc => head_trim hc, List.rdropWhile_eq_self_iff]
  intro hne hlast
  rw [List.getLast_append_of_ne_nil hne hv] at hlast
  rw [getLast_trim (List.getLast?_eq_some_getLast hv)] at hlast
  cases hlast

theorem trim_append (hu : trim u ≠ []) :
    trim (u ++ v) =
      trim u ++ ((u.dropWhile isSpace).rtakeWhile isSpace ++ v).rdropWhile isSpace := by
  have hback : trim u ++ (u.dropWhile isSpace).rtakeWhile isSpace = u.dropWhile isSpace :=
    List.rdropWhile_append_rtakeWhile
  have hfront : (u ++ v).dropWhile isSpace =
      trim u ++ ((u.dropWhile isSpace).rtakeWhile isSpace ++ v) := by
    rw [List.dropWhile_append, ← List.append_assoc, hback]
    split
    · next hnil =>
      rw [List.isEmpty_iff.mp hnil] at hback
      exact absurd (List.append_eq_nil_iff.mp hback).1 hu
    · rfl
  show ((u ++ v).dropWhile isSpace).rdropWhile isSpace = _
  rw [hfront, rdropWhile_append_of_getLast fun c hc => getLast_trim hc]

end HomelabMcp.Text
