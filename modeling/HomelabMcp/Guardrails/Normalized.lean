import HomelabMcp.Guardrails.Denylist
import HomelabMcp.Lib.Trim

/-!
# The normalized text of a longer command

A command that is put before or after another, with white space or a semicolon between
them, keeps its own normalized text as the beginning or the end of that of the whole.

- `normalize_append`, `normalize_prepend`: what is added begins or ends with a blank or a
  semicolon.
- `normalize_semicolon`: a semicolon at the end of a command is the only thing added.
-/

namespace HomelabMcp.Guardrails

open SlashPath Text

variable {w : Bool} {a b x y : Str} {c : Char}

/-- White space comes last, or `w` where there is no text. -/
def endsSpace (w : Bool) (s : Str) : Bool :=
  (s.getLast?.map isSpace).getD w

/-- What a text is cut off at: white space or a semicolon. -/
def Cut (c : Char) : Prop :=
  isSpace c = true ∨ c = ';'

theorem endsSpace_cons (s : Str) : endsSpace w (c :: s) = endsSpace (isSpace c) s := by
  unfold endsSpace
  rw [List.getLast?_cons]
  cases s.getLast? with
  | none => rfl
  | some d => rfl

theorem collapseFrom_append :
    collapseFrom w (x ++ y) = collapseFrom w x ++ collapseFrom (endsSpace w x) y := by
  induction x generalizing w with
  | nil => rfl
  | cons c s ih =>
    rw [endsSpace_cons, List.cons_append]
    show (if isSpace c then _ else _) = (if isSpace c then _ else _) ++ _
    by_cases hc : isSpace c = true
    · rw [if_pos hc, if_pos hc, hc]
      cases w with
      | false => exact congrArg (' ' :: ·) ih
      | true => exact ih
    · rw [if_neg hc, if_neg hc, Bool.eq_false_iff.mpr hc]
      exact congrArg (c :: ·) ih

theorem mem_collapseFrom (h : c ∈ collapseFrom w x) (hc : isSpace c = true) : c = ' ' := by
  induction x generalizing w with
  | nil => cases h
  | cons d s ih =>
    have h : c ∈ (if isSpace d then
        if w then collapseFrom true s else ' ' :: collapseFrom true s
      else d :: collapseFrom false s) := h
    split at h
    · split at h
      · exact ih h
      · exact (List.mem_cons.mp h).elim id ih
    · next hd =>
      rcases List.mem_cons.mp h with rfl | h
      · exact absurd hc hd
      · exact ih h

/-- Of white space at the end, one blank is left. -/
theorem getLast_collapseFrom (hx : endsSpace w x = true) :
    (w = true ∧ collapseFrom w x = []) ∨ (collapseFrom w x).getLast? = some ' ' := by
  induction x generalizing w with
  | nil => exact Or.inl ⟨hx, rfl⟩
  | cons c s ih =>
    rw [endsSpace_cons] at hx
    show (_ ∧ (if isSpace c then _ else _) = []) ∨ (if isSpace c then _ else _ : Str).getLast? = _
    by_cases hc : isSpace c = true
    · rw [hc] at hx
      rw [if_pos hc]
      cases w with
      | true => exact ih hx
      | false =>
        refine Or.inr ?_
        show (' ' :: collapseFrom true s).getLast? = some ' '
        rw [List.getLast?_cons]
        rcases ih hx with ⟨-, hnil⟩ | hlast
        · rw [hnil]
          rfl
        · rw [hlast]
          rfl
    · rw [Bool.eq_false_iff.mpr hc] at hx
      rw [if_neg hc]
      rcases ih hx with ⟨hw, -⟩ | hlast
      · cases hw
      · refine Or.inr ?_
        rw [List.getLast?_cons, hlast]
        rfl

/-- What stands before a text makes a difference to a blank at its head only. -/
theorem trim_collapseFrom (w : Bool) (s : Str) : trim (collapseFrom w s) = collapsed s := by
  cases w with
  | false => rfl
  | true =>
    cases s with
    | nil => rfl
    | cons c s =>
      show trim (if isSpace c then collapseFrom true s else _) =
        trim (if isSpace c then ' ' :: collapseFrom true s else _)
      split
      · have hblank : Blank [' '] := by
          intro d hd
          rw [List.mem_singleton.mp hd]
          rfl
        exact (trim_blank_append hblank).symm
      · rfl

theorem collapsed_append :
    collapsed (x ++ y) = trim (collapseFrom false x ++ collapseFrom (endsSpace false x) y) := by
  unfold collapsed
  rw [collapseFrom_append]

/-! ## Something before -/

/-- A text that ends in a cut ends in a blank or a semicolon once collapsed. -/
theorem getLast_collapseFrom_cut {e : Char} (hx : x.getLast? = some e) (he : Cut e)
    (hc : (collapseFrom false x).getLast? = some c) : c = ' ' ∨ c = ';' := by
  rcases he with hspace | rfl
  · have hends : endsSpace false x = true := by
      unfold endsSpace
      rw [hx]
      exact hspace
    rcases getLast_collapseFrom hends with ⟨hfalse, -⟩ | hlast
    · cases hfalse
    · rw [hlast] at hc
      exact Or.inl (Option.some.inj hc).symm
  · obtain ⟨l, rfl⟩ := List.getLast?_eq_some_iff.mp hx
    have hlast : collapseFrom (endsSpace false l) [';'] = [';'] := rfl
    rw [collapseFrom_append, hlast, List.getLast?_append_of_ne_nil _ (List.cons_ne_nil _ _)] at hc
    exact Or.inr (Option.some.inj hc).symm

/-- After a text that ends in a cut, a command's text ends the whole. -/
theorem collapsed_prepend {e : Char} (hx : x.getLast? = some e) (he : Cut e)
    (hb : collapsed b ≠ []) :
    ∃ pre, collapsed (x ++ b) = pre ++ collapsed b ∧
      ∀ c, pre.getLast? = some c → c = ' ' ∨ c = ';' := by
  rw [collapsed_append]
  rw [← trim_collapseFrom (endsSpace false x)] at hb ⊢
  rw [trim_prepend hb]
  refine ⟨_, rfl, ?_⟩
  intro c hc
  -- The last of what stands before is the last of the blanks, if any, or else of the text.
  have hne : (collapseFrom false x ++
      (collapseFrom (endsSpace false x) b).takeWhile isSpace).dropWhile isSpace ≠ [] := by
    intro hnil
    rw [hnil] at hc
    cases hc
  rw [Regex.getLast?_eq_of_suffix (List.dropWhile_suffix _) hne] at hc
  by_cases hlead : (collapseFrom (endsSpace false x) b).takeWhile isSpace = []
  · rw [hlead, List.append_nil] at hc
    exact getLast_collapseFrom_cut hx he hc
  · rw [List.getLast?_append_of_ne_nil _ hlead] at hc
    have hmem := List.mem_of_getLast? hc
    exact Or.inl (mem_collapseFrom (List.takeWhile_subset _ hmem) (blank_takeWhile _ c hmem))

theorem normalize_prepend {e : Char} (lower : LowerCase) (hx : x.getLast? = some e) (he : Cut e)
    (hb : collapsed b ≠ []) :
    ∃ pre, normalize lower (x ++ b) = pre ++ normalize lower b ∧
      ∀ c, pre.getLast? = some c → c = ' ' ∨ c = ';' := by
  obtain ⟨pre, hpre, hlast⟩ := collapsed_prepend hx he hb
  unfold normalize
  rw [hpre]
  rcases List.eq_nil_or_concat pre with rfl | ⟨l, c, rfl⟩
  · exact ⟨[], rfl, hlast⟩
  · have hc := hlast c (by rw [List.concat_eq_append]; exact List.getLast?_concat)
    refine ⟨lower.toLowerCase l ++ [c], ?_, ?_⟩
    · rw [List.concat_eq_append, List.append_assoc, List.append_assoc]
      exact lower.apart l _ c hc
    · intro d hd
      rw [List.getLast?_concat] at hd
      rwa [← Option.some.inj hd]

/-! ## Something after -/

/-- Without a blank at the end of what is collapsed, there was no white space at the end. -/
theorem endsSpace_of_no_blank (ha : trim (collapseFrom false a) ≠ [])
    (htrail : ((collapseFrom false a).dropWhile isSpace).rtakeWhile isSpace = []) :
    endsSpace false a = false := by
  refine Bool.eq_false_iff.mpr fun hends => ?_
  rcases getLast_collapseFrom hends with ⟨hfalse, -⟩ | hlast
  · cases hfalse
  · have hne : (collapseFrom false a).dropWhile isSpace ≠ [] := by
      intro hnil
      refine ha ?_
      unfold trim
      rw [hnil]
      rfl
    rw [← Regex.getLast?_eq_of_suffix (List.dropWhile_suffix _) hne,
      List.getLast?_eq_some_getLast hne] at hlast
    have hlast := Option.some.inj hlast
    refine List.rtakeWhile_eq_nil_iff.mp htrail hne ?_
    rw [hlast]
    rfl

theorem head_collapseFrom_cut {e : Char} (hy : y.head? = some e) (he : Cut e)
    (hc : (collapseFrom false y).head? = some c) : c = ' ' ∨ (c = ';' ∧ e = ';') := by
  obtain ⟨l, rfl⟩ := List.head?_eq_some_iff.mp hy
  rcases he with hspace | rfl
  · have hhead : (if isSpace e then ' ' :: collapseFrom true l else _ : Str).head? = some c := hc
    rw [if_pos hspace] at hhead
    exact Or.inl (Option.some.inj hhead).symm
  · exact Or.inr ⟨(Option.some.inj hc).symm, rfl⟩

/-- What a text that begins with a cut adds to a command: it begins with a blank, or else
with the semicolon that follows the command at once. -/
theorem collapsed_append_cut {e : Char} (hy : y.head? = some e) (he : Cut e)
    (ha : collapsed a ≠ []) :
    ∃ ext, collapsed (a ++ y) = collapsed a ++ ext ∧
      ∀ c, ext.head? = some c → c = ' ' ∨ (c = ';' ∧ e = ';' ∧ endsSpace false a = false) := by
  rw [collapsed_append]
  have ha' : trim (collapseFrom false a) ≠ [] := ha
  rw [trim_append ha']
  refine ⟨_, rfl, ?_⟩
  intro c hc
  obtain ⟨t, ht⟩ := List.rdropWhile_prefix isSpace
    (((collapseFrom false a).dropWhile isSpace).rtakeWhile isSpace ++
      collapseFrom (endsSpace false a) y)
  have hhead : (((collapseFrom false a).dropWhile isSpace).rtakeWhile isSpace ++
      collapseFrom (endsSpace false a) y).head? = some c := by
    rw [← ht, List.head?_append, hc]
    rfl
  by_cases htrail : ((collapseFrom false a).dropWhile isSpace).rtakeWhile isSpace = []
  · rw [htrail, List.nil_append] at hhead
    have hends := endsSpace_of_no_blank ha' htrail
    rw [hends] at hhead
    exact (head_collapseFrom_cut hy he hhead).imp_right fun hc => ⟨hc.1, hc.2, hends⟩
  · rw [List.head?_append_of_ne_nil _ htrail] at hhead
    have hmem := List.mem_of_head? hhead
    have hc := blank_rtakeWhile _ c hmem
    have hfrom := List.dropWhile_subset _ ((List.rtakeWhile_suffix isSpace _).subset hmem)
    exact Or.inl (mem_collapseFrom hfrom hc)

theorem normalize_append {e : Char} (lower : LowerCase) (hy : y.head? = some e) (he : Cut e)
    (ha : collapsed a ≠ []) :
    ∃ ext, normalize lower (a ++ y) = normalize lower a ++ ext ∧
      ∀ c, ext.head? = some c → c = ' ' ∨ (c = ';' ∧ e = ';' ∧ endsSpace false a = false) := by
  obtain ⟨ext, hext, hhead⟩ := collapsed_append_cut hy he ha
  unfold normalize
  rw [hext]
  cases ext with
  | nil => exact ⟨[], by rw [List.append_nil, List.append_nil], hhead⟩
  | cons c r =>
    have hc := (hhead c rfl).imp_right And.left
    refine ⟨c :: lower.toLowerCase r, lower.apart _ r c hc, ?_⟩
    intro d hd
    rw [← Option.some.inj hd]
    exact hhead c rfl

theorem getLast_collapseFrom_of_ends (hends : endsSpace false a = false)
    (hc : (collapseFrom false a).getLast? = some c) : isSpace c = false := by
  rcases List.eq_nil_or_concat a with rfl | ⟨l, d, rfl⟩
  · cases hc
  · rw [List.concat_eq_append] at hends hc
    have hd : isSpace d = false := by
      unfold endsSpace at hends
      rw [List.getLast?_concat] at hends
      exact hends
    have hlast : collapseFrom (endsSpace false l) [d] = [d] := by
      show (if isSpace d then _ else [d]) = [d]
      rw [if_neg (Bool.eq_false_iff.mp hd)]
    rw [collapseFrom_append, hlast, List.getLast?_concat] at hc
    rwa [← Option.some.inj hc]

/-- A semicolon right after a command is all that comes to its text. -/
theorem normalize_semicolon (lower : LowerCase) (hends : endsSpace false a = false) :
    normalize lower (a ++ [';']) = normalize lower a ++ [';'] := by
  have hsemi : trim (collapseFrom (endsSpace false a) [';']) ≠ [] := List.cons_ne_nil _ _
  have hself : (collapseFrom false a).dropWhile isSpace = collapsed a := by
    refine (List.rdropWhile_eq_self_iff.mpr ?_).symm
    intro hne hlast
    have hlast' := getLast_collapseFrom_of_ends hends (c := ((collapseFrom false a).dropWhile
      isSpace).getLast hne) (by
        rw [← Regex.getLast?_eq_of_suffix (List.dropWhile_suffix _) hne]
        exact List.getLast?_eq_some_getLast hne)
    rw [hlast'] at hlast
    cases hlast
  have hwhole : collapsed (a ++ [';']) = collapsed a ++ [';'] := by
    rw [collapsed_append, trim_prepend hsemi, ← hself]
    show (collapseFrom false a ++ []).dropWhile isSpace ++ [';'] = _
    rw [List.append_nil]
  unfold normalize
  rw [hwhole, lower.apart _ [] ';' (Or.inr rfl), lower.nil]

end HomelabMcp.Guardrails
