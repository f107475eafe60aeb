import HomelabMcp.Guardrails.WriteGuards
import HomelabMcp.Lib.Utf8

/-!
# Markers in a text (redaction.ts)

The scan for markers goes on after each one it finds. Markers do not overlap, so that a
text which is cut off, wherever, has no more of them.

- `markerLength_eq_some_iff`: what the scan takes for a marker.
- `countMarkers_decode_take_le`: the first bytes of a text have no more markers than all
  of it.
-/

namespace HomelabMcp.Guardrails

open SlashPath Text

variable {text m : Str} {n : Nat}

theorem after?_append (start text : Str) : after? start (start ++ text) = some text := by
  unfold after?
  rw [if_pos (List.prefix_append start text), List.drop_left]

theorem after?_eq_some {start rest : Str} (h : after? start text = some rest) :
    text = start ++ rest := by
  unfold after? at h
  split at h
  · next hprefix =>
    cases h
    exact (List.prefix_iff_eq_append.mp hprefix).symm
  · cases h

/-! ## One marker -/

/-- ` fp=` and eight digits, or nothing. -/
inductive FingerprintText : Str → Prop
  | none : FingerprintText []
  | digits {f : Str} : f.length = 8 → f.all hexDigit = true → FingerprintText (" fp=".toList ++ f)

/-- A whole marker. -/
inductive Marker : Str → Prop
  | mk {length fingerprint : Str} : length ≠ [] → (∀ c ∈ length, c.isDigit = true) →
      FingerprintText fingerprint →
        Marker ("<redacted len=".toList ++ (length ++ (fingerprint ++ ['>'])))

theorem FingerprintText.skip {field : Str} (h : FingerprintText field) (rest : Str) :
    skipFingerprint (field ++ '>' :: rest) = '>' :: rest := by
  cases h with
  | none => rfl
  | @digits f hlength hhex =>
    have htake : (f ++ '>' :: rest).take 8 = f := by rw [← hlength, List.take_left]
    have hdrop : (f ++ '>' :: rest).drop 8 = '>' :: rest := by rw [← hlength, List.drop_left]
    have hlong : 8 ≤ (f ++ '>' :: rest).length := by
      rw [List.length_append, hlength]
      exact Nat.le_add_right 8 _
    rw [List.append_assoc]
    unfold skipFingerprint
    rw [after?_append]
    dsimp only
    rw [htake, hdrop, if_pos ⟨hlong, hhex⟩]

/-- What is skipped is a fingerprint. -/
theorem skipFingerprint_spec (text : Str) :
    ∃ field, FingerprintText field ∧ text = field ++ skipFingerprint text := by
  unfold skipFingerprint
  split
  · next rest hrest =>
    split
    · next hdigits =>
      refine ⟨" fp=".toList ++ rest.take 8, .digits ?_ hdigits.2, ?_⟩
      · rw [List.length_take]
        exact Nat.min_eq_left hdigits.1
      · rw [List.append_assoc, List.take_append_drop]
        exact after?_eq_some hrest
    · exact ⟨[], .none, rfl⟩
  · exact ⟨[], .none, rfl⟩

/-- The digits of a marker's length end where its fingerprint or its bracket begins. -/
theorem FingerprintText.head {field : Str} (h : FingerprintText field) (rest : Str) :
    ∃ c tail, field ++ '>' :: rest = c :: tail ∧ c.isDigit = false := by
  cases h with
  | none => exact ⟨_, _, rfl, rfl⟩
  | digits hlength hhex => exact ⟨_, _, rfl, rfl⟩

theorem span_digits {digits tail : Str} {c : Char} (hdigits : ∀ d ∈ digits, d.isDigit = true)
    (hc : c.isDigit = false) :
    (digits ++ c :: tail).takeWhile Char.isDigit = digits ∧
      (digits ++ c :: tail).dropWhile Char.isDigit = c :: tail := by
  rw [List.takeWhile_append_of_pos hdigits, List.dropWhile_append_of_pos hdigits,
    List.takeWhile_cons_of_neg (by rw [hc]; exact Bool.false_ne_true),
    List.dropWhile_cons_of_neg (by rw [hc]; exact Bool.false_ne_true), List.append_nil]
  exact ⟨rfl, rfl⟩

/-- What the scan takes for a marker, at the beginning of a text. -/
theorem markerLength_eq_some_iff :
    markerLength text = some n ↔ ∃ m rest, Marker m ∧ text = m ++ rest ∧ n = m.length := by
  unfold markerLength
  constructor
  · intro h
    obtain ⟨rest, hrest, h⟩ := Option.bind_eq_some_iff.mp h
    have htext := after?_eq_some hrest
    obtain ⟨field, hfield, hafter⟩ := skipFingerprint_spec (rest.dropWhile Char.isDigit)
    have hsplit : rest = rest.takeWhile Char.isDigit ++ rest.dropWhile Char.isDigit :=
      List.takeWhile_append_dropWhile.symm
    have hdigits : ∀ c ∈ rest.takeWhile Char.isDigit, c.isDigit = true :=
      List.all_eq_true.mp List.all_takeWhile
    -- the digits, the fingerprint, and then the bracket that closes
    generalize rest.takeWhile Char.isDigit = digits at h hsplit hdigits
    generalize skipFingerprint (rest.dropWhile Char.isDigit) = tail at h hafter
    dsimp only at h
    split at h
    · next hmarker =>
      obtain ⟨hne, hhead⟩ := hmarker
      obtain ⟨last, rfl⟩ : ∃ last, tail = '>' :: last := by
        cases tail with
        | nil => cases hhead
        | cons c last => exact ⟨last, by rw [Option.some.inj hhead]⟩
      refine ⟨_, last, .mk hne hdigits hfield, ?_, ?_⟩
      · rw [htext, hsplit, hafter]
        simp only [List.append_assoc, List.singleton_append]
      · rw [← Option.some.inj h, htext, hsplit, hafter]
        simp only [List.length_append, List.length_cons, List.length_nil]
        omega
    · cases h
  · rintro ⟨m, last, hm, rfl, rfl⟩
    obtain ⟨hne, hdigits, hfield⟩ := hm
    next digits field =>
    obtain ⟨c, tail, htail, hc⟩ := hfield.head last
    obtain ⟨htake, hdrop⟩ := @span_digits digits tail c hdigits hc
    have hafter : after? "<redacted len=".toList ("<redacted len=".toList ++
        (digits ++ (field ++ ['>'])) ++ last) = some (digits ++ c :: tail) := by
      rw [← htail, ← after?_append "<redacted len=".toList]
      simp only [List.append_assoc, List.singleton_append]
    rw [hafter]
    dsimp only [bind, Option.bind]
    rw [htake, hdrop, ← htail, hfield.skip, if_pos ⟨hne, rfl⟩]
    simp only [List.length_append, List.length_cons, List.length_nil]
    congr 1
    omega

/-- A marker begins with a bracket and has no other one that opens. -/
theorem Marker.cons (h : Marker m) : ∃ body, m = '<' :: body ∧ '<' ∉ body := by
  obtain ⟨hne, hdigits, hfield⟩ := h
  next digits field =>
  refine ⟨"redacted len=".toList ++ (digits ++ (field ++ ['>'])), rfl, fun hmem => ?_⟩
  have hnot : '<' ∉ digits := fun hd => absurd (hdigits _ hd) (by decide)
  have hnot' : '<' ∉ field := by
    cases hfield with
    | none => exact List.not_mem_nil
    | digits hlength hhex =>
      intro hf
      rcases List.mem_append.mp hf with hf | hf
      · exact absurd hf (by decide)
      · exact absurd (List.all_eq_true.mp hhex _ hf) (by decide)
  rcases List.mem_append.mp hmem with hmem | hmem
  · exact absurd hmem (by decide)
  · rcases List.mem_append.mp hmem with hmem | hmem
    · exact hnot hmem
    · rcases List.mem_append.mp hmem with hmem | hmem
      · exact hnot' hmem
      · exact absurd hmem (by decide)

theorem Marker.concat (h : Marker m) : ∃ body, m = body ++ ['>'] := by
  obtain ⟨-, -, -⟩ := h
  next digits field =>
  refine ⟨"<redacted len=".toList ++ (digits ++ field), ?_⟩
  simp only [List.append_assoc]

/-! ## The scan -/

theorem markerLength_append (h : markerLength text = some n) (rest : Str) :
    markerLength (text ++ rest) = some n := by
  obtain ⟨m, last, hm, rfl, rfl⟩ := markerLength_eq_some_iff.mp h
  exact markerLength_eq_some_iff.mpr ⟨m, last ++ rest, hm, List.append_assoc .., rfl⟩

/-- Without an opening bracket there is no marker. -/
theorem countMarkersFrom_eq_zero (h : '<' ∉ text) (skip : Nat) :
    countMarkersFrom skip text = 0 := by
  induction text generalizing skip with
  | nil => cases skip <;> rfl
  | cons c text ih =>
    have htext : '<' ∉ text := fun hmem => h (List.mem_cons_of_mem _ hmem)
    cases skip with
    | succ skip => exact ih htext skip
    | zero =>
      unfold countMarkersFrom
      cases hlength : markerLength (c :: text) with
      | none => exact ih htext 0
      | some n =>
        obtain ⟨m, rest, hm, heq, -⟩ := markerLength_eq_some_iff.mp hlength
        obtain ⟨body, rfl, -⟩ := hm.cons
        cases heq
        exact absurd List.mem_cons_self h

/-- The scan of the beginning of a text finds no more markers. -/
theorem countMarkersFrom_append_le (first rest : Str) (skip : Nat) :
    countMarkersFrom skip first ≤ countMarkersFrom skip (first ++ rest) := by
  induction first generalizing skip with
  | nil =>
    have hnil : countMarkersFrom skip [] = 0 := by cases skip <;> rfl
    rw [hnil]
    exact Nat.zero_le _
  | cons c first ih =>
    cases skip with
    | succ skip => exact ih skip
    | zero =>
      show countMarkersFrom 0 (c :: first) ≤ countMarkersFrom 0 (c :: (first ++ rest))
      unfold countMarkersFrom
      cases hlength : markerLength (c :: first) with
      | some n =>
        have hlonger := markerLength_append hlength rest
        rw [List.cons_append] at hlonger
        rw [hlonger]
        exact Nat.succ_le_succ (ih (n - 1))
      | none =>
        cases hlonger : markerLength (c :: (first ++ rest)) with
        | none => exact ih 0
        | some n =>
          -- a marker that is cut off has no other one inside
          obtain ⟨m, last, hm, heq, -⟩ := markerLength_eq_some_iff.mp hlonger
          obtain ⟨body, rfl, hbody⟩ := hm.cons
          have htail : first ++ rest = body ++ last := (List.cons.inj heq).2
          rcases List.append_eq_append_iff.mp htail with ⟨as, rfl, -⟩ | ⟨bs, rfl, -⟩
          · have hfirst : '<' ∉ first := fun h => hbody (List.mem_append_left _ h)
            dsimp only
            rw [countMarkersFrom_eq_zero hfirst]
            exact Nat.zero_le _
          · have hwhole : markerLength (c :: (body ++ bs)) = some ('<' :: body).length := by
              refine markerLength_eq_some_iff.mpr ⟨_, bs, hm, ?_, rfl⟩
              rw [(List.cons.inj heq).1]
              rfl
            rw [hwhole] at hlength
            cases hlength

/-- A character that ends no marker. -/
theorem countMarkersFrom_concat {c : Char} (hc : c ≠ '>') (first : Str) (skip : Nat) :
    countMarkersFrom skip (first ++ [c]) = countMarkersFrom skip first := by
  -- a marker that ends in the last character would end in a bracket
  have hsame {text : Str} : markerLength (text ++ [c]) = markerLength text := by
    cases hlength : markerLength text with
    | some n => exact markerLength_append hlength [c]
    | none =>
      refine Option.eq_none_iff_forall_ne_some.mpr fun n hn => ?_
      obtain ⟨m, rest, hm, heq, -⟩ := markerLength_eq_some_iff.mp hn
      rcases rest.eq_nil_or_concat' with rfl | ⟨rest, d, rfl⟩
      · obtain ⟨body, rfl⟩ := hm.concat
        rw [List.append_nil] at heq
        exact hc (List.singleton_inj.mp (List.append_inj_right' heq rfl))
      · rw [← List.append_assoc] at heq
        have hlonger := markerLength_eq_some_iff.mpr
          ⟨m, rest, hm, List.append_inj_left' heq rfl, rfl⟩
        rw [hlonger] at hlength
        cases hlength
  induction first generalizing skip with
  | nil =>
    cases skip with
    | succ skip =>
      cases skip <;> rfl
    | zero =>
      have hnone : markerLength ([] ++ [c]) = none := hsame.trans rfl
      show countMarkersFrom 0 [c] = 0
      unfold countMarkersFrom
      rw [show markerLength [c] = none from hnone]
      rfl
  | cons d first ih =>
    cases skip with
    | succ skip => exact ih skip
    | zero =>
      show countMarkersFrom 0 (d :: (first ++ [c])) = countMarkersFrom 0 (d :: first)
      unfold countMarkersFrom
      rw [← List.cons_append, hsame]
      cases markerLength (d :: first) with
      | none => exact ih 0
      | some n => exact congrArg (· + 1) (ih (n - 1))

/-- The first bytes of a text have no more markers than all of it. -/
theorem countMarkers_decode_take_le (content : Bytes) (k : Nat) :
    countMarkers (Utf8.decode (content.take k)) ≤ countMarkers (Utf8.decode content) := by
  obtain ⟨first, ⟨rest, hrest⟩, hdecode⟩ := Utf8.decode_take content k
  have hfirst : countMarkers (Utf8.decode (content.take k)) = countMarkers first := by
    rcases hdecode with hdecode | hdecode
    · rw [hdecode]
    · rw [hdecode]
      exact countMarkersFrom_concat (by decide) first 0
  rw [hfirst, ← hrest]
  exact countMarkersFrom_append_le first rest 0

end HomelabMcp.Guardrails
