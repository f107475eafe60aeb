import HomelabMcp.Guardrails.Sequencing

/-!
# When sequencing keeps the verdict

A verdict rises with the patterns that match the text of a command and with the segments
that match an entry. The parts of a sequence keep their segments, and their text but for
its end: `$` in the pattern for `rm -rf /` does not match before a semicolon.

- `tier_cases`: the verdict, by what matches.
- `sequencing_keeps_tier_iff`: the verdict is kept, unless that end is all that matched.
-/

namespace HomelabMcp.Guardrails

open SlashPath Text Regex

variable {lower : LowerCase} {extra : List Str} {a b : Str}

def MatchesPattern (lower : LowerCase) (patterns : List Pattern) (command : Str) : Prop :=
  ∃ p ∈ patterns, p.regex.test (normalize lower command) = true

/-- A configured entry of the kind matches a segment. -/
def HasEntry (lower : LowerCase) (extra : List Str) (confirms : Bool) (segments : List Str) :
    Prop :=
  ∃ raw ∈ extra, isConfirmEntry lower raw = confirms ∧ matchesEntry lower segments raw = true

def Denied (lower : LowerCase) (extra : List Str) (command : Str) : Prop :=
  MatchesPattern lower (protectedPatterns ++ denyPatterns) command ∨
    HasEntry lower extra false (splitSegments command)

def NeedsConfirm (lower : LowerCase) (extra : List Str) (command : Str) : Prop :=
  (∃ s ∈ splitSegments command, segmentNeedsConfirm lower s = true) ∨
    HasEntry lower extra true (splitSegments command)

/-! ## The verdict -/

/-- The entries in turn: an error for a deny entry, or else whether a confirm entry matched. -/
theorem checkEntries_spec (lower : LowerCase) (extra : List Str) (segments : List Str) (confirm : Option Str) :
    (HasEntry lower extra false segments ∧
      ∃ e, checkEntries lower segments confirm extra = .error e) ∨
    (¬ HasEntry lower extra false segments ∧
      ∃ r, checkEntries lower segments confirm extra = .ok r ∧
        (r.isSome = true ↔ confirm.isSome = true ∨ HasEntry lower extra true segments)) := by
  induction extra generalizing confirm with
  | nil =>
    refine Or.inr ⟨?_, confirm, rfl, (or_iff_left ?_).symm⟩ <;>
    · rintro ⟨raw, hraw, -⟩
      cases hraw
  | cons raw extra ih =>
    have hentry (k : Bool) : HasEntry lower (raw :: extra) k segments ↔
        (isConfirmEntry lower raw = k ∧ matchesEntry lower segments raw = true) ∨
          HasEntry lower extra k segments := by
      simp only [HasEntry, List.mem_cons, exists_eq_or_imp]
    rw [hentry, hentry]
    unfold checkEntries
    by_cases hmatch : matchesEntry lower segments raw = true
    · rw [if_pos hmatch]
      by_cases hconfirm : isConfirmEntry lower raw = true
      · rw [if_pos hconfirm]
        simpa [hconfirm, hmatch] using ih (some (trim (raw.drop confirmTag.length)))
      · rw [if_neg hconfirm]
        exact Or.inl ⟨Or.inl ⟨Bool.eq_false_iff.mpr hconfirm, hmatch⟩, _, rfl⟩
    · rw [if_neg hmatch]
      simpa [hmatch] using ih confirm

theorem findPattern_cases (lower : LowerCase) (patterns : List Pattern) (command : Str) :
    (MatchesPattern lower patterns command ∧
      ∃ p, findPattern patterns (normalize lower command) = some p) ∨
    (¬ MatchesPattern lower patterns command ∧
      findPattern patterns (normalize lower command) = none) := by
  unfold findPattern MatchesPattern
  cases hfind : patterns.find? fun p => p.regex.test (normalize lower command) with
  | some p =>
    have htest := List.find?_some hfind
    exact Or.inl ⟨⟨p, List.mem_of_find?_eq_some hfind, htest⟩, p, rfl⟩
  | none =>
    refine Or.inr ⟨?_, rfl⟩
    rintro ⟨p, hp, htest⟩
    exact List.find?_eq_none.mp hfind p hp htest

theorem matchesPattern_append {l l' : List Pattern} :
    MatchesPattern lower (l ++ l') a ↔ MatchesPattern lower l a ∨ MatchesPattern lower l' a := by
  simp only [MatchesPattern, List.mem_append, or_and_right, exists_or]

theorem tier_cases (lower : LowerCase) (extra : List Str) (command : Str) :
    (Denied lower extra command ∧ (checkCommand lower command extra).tier = .deny) ∨
    (¬ Denied lower extra command ∧ NeedsConfirm lower extra command ∧
      (checkCommand lower command extra).tier = .confirm) ∨
    (¬ Denied lower extra command ∧ ¬ NeedsConfirm lower extra command ∧
      (checkCommand lower command extra).tier = .allow) := by
  unfold Denied checkCommand
  rw [matchesPattern_append]
  dsimp only
  rcases findPattern_cases lower protectedPatterns command with
    ⟨hmatch, p, hp⟩ | ⟨hprotected, hp⟩
  · rw [hp]
    exact Or.inl ⟨Or.inl (Or.inl hmatch), rfl⟩
  rw [hp]
  rcases findPattern_cases lower denyPatterns command with
    ⟨hmatch, p, hp⟩ | ⟨hdeny, hp⟩
  · rw [hp]
    exact Or.inl ⟨Or.inl (Or.inr hmatch), rfl⟩
  rw [hp]
  rcases checkEntries_spec lower extra (splitSegments command) none with
    ⟨hentry, e, he⟩ | ⟨hentry, r, hr, hsome⟩
  · rw [he]
    exact Or.inl ⟨Or.inr hentry, rfl⟩
  rw [hr]
  have hnot : ¬ ((MatchesPattern lower protectedPatterns command ∨
      MatchesPattern lower denyPatterns command) ∨
      HasEntry lower extra false (splitSegments command)) :=
    not_or.mpr ⟨not_or.mpr ⟨hprotected, hdeny⟩, hentry⟩
  refine Or.inr ?_
  unfold NeedsConfirm
  cases hfind : (splitSegments command).find? (segmentNeedsConfirm lower) with
  | some s =>
    exact Or.inl ⟨hnot, Or.inl ⟨s, List.mem_of_find?_eq_some hfind, List.find?_some hfind⟩, rfl⟩
  | none =>
    have hnone : ¬ ∃ s ∈ splitSegments command, segmentNeedsConfirm lower s = true := by
      rintro ⟨s, hs, hconfirm⟩
      exact List.find?_eq_none.mp hfind s hs hconfirm
    cases r with
    | some reason =>
      exact Or.inl ⟨hnot, Or.inr ((hsome.mp rfl).resolve_left Bool.false_ne_true), rfl⟩
    | none =>
      refine Or.inr ⟨hnot, not_or.mpr ⟨hnone, fun hentry => ?_⟩, rfl⟩
      exact Bool.false_ne_true (hsome.mpr (Or.inr hentry))

/-- The verdict of a command rises with what matches it. -/
theorem rank_le (hdeny : Denied lower extra a → Denied lower extra b)
    (hconfirm : NeedsConfirm lower extra a → NeedsConfirm lower extra b) :
    (checkCommand lower a extra).tier.rank ≤ (checkCommand lower b extra).tier.rank := by
  rcases tier_cases lower extra a with ⟨ha, htier⟩ | ⟨-, ha, htier⟩ | ⟨-, -, htier⟩
  · rcases tier_cases lower extra b with ⟨-, hb⟩ | ⟨hb, -⟩ | ⟨hb, -⟩
    · rw [htier, hb]
    · exact absurd (hdeny ha) hb
    · exact absurd (hdeny ha) hb
  · rw [htier]
    rcases tier_cases lower extra b with ⟨-, hb⟩ | ⟨-, -, hb⟩ | ⟨-, hb, -⟩
    · rw [hb]
      decide
    · rw [hb]
    · exact absurd (hconfirm ha) hb
  · rw [htier]
    exact Nat.zero_le _

/-! ## Segments and entries -/

theorem HasEntry.mono {confirms : Bool} {segments segments' : List Str}
    (h : HasEntry lower extra confirms segments) (hsub : segments ⊆ segments') :
    HasEntry lower extra confirms segments' := by
  obtain ⟨raw, hraw, hkind, hmatch⟩ := h
  refine ⟨raw, hraw, hkind, ?_⟩
  obtain ⟨hne, hany⟩ := Bool.and_eq_true_iff.mp hmatch
  obtain ⟨s, hs, hentry⟩ := List.any_eq_true.mp hany
  exact Bool.and_eq_true_iff.mpr ⟨hne, List.any_eq_true.mpr ⟨s, hsub hs, hentry⟩⟩

theorem NeedsConfirm.mono (h : NeedsConfirm lower extra a)
    (hsub : splitSegments a ⊆ splitSegments b) : NeedsConfirm lower extra b := by
  rcases h with ⟨s, hs, hconfirm⟩ | hentry
  · exact Or.inl ⟨s, hsub hs, hconfirm⟩
  · exact Or.inr (hentry.mono hsub)

/-! ## Patterns -/

/-- The patterns that do not use `$`. -/
def endlessPatterns : List Pattern :=
  protectedPatterns ++ otherDenyPatterns

theorem mem_patterns {p : Pattern} :
    p ∈ protectedPatterns ++ denyPatterns ↔ p ∈ endlessPatterns ∨ p = rmRootPattern := by
  unfold endlessPatterns denyPatterns
  rw [List.mem_append, List.mem_append, List.mem_cons]
  tauto

theorem endless_of_mem : ∀ p ∈ endlessPatterns, p.regex.endless = true := by
  decide

/-- No pattern matches a blank command. -/
theorem test_nil_of_mem : ∀ p ∈ protectedPatterns ++ denyPatterns, p.regex.test [] = false := by
  decide

theorem isWord_of_cut {c : Char} (hc : c = ' ' ∨ c = ';') : isWord c = false := by
  rcases hc with rfl | rfl <;> decide

theorem collapsed_ne_nil {r : Regex} (hnil : r.test [] = false)
    (h : r.test (normalize lower a) = true) : collapsed a ≠ [] := by
  intro hblank
  unfold normalize at h
  rw [hblank, lower.nil, hnil] at h
  cases h

/-- What matches a command matches it after another text that ends in a cut. -/
theorem test_normalize_prepend {r : Regex} {x : Str} {e : Char} (hx : x.getLast? = some e)
    (he : Cut e) (hnil : r.test [] = false) (h : r.test (normalize lower b) = true) :
    r.test (normalize lower (x ++ b)) = true := by
  obtain ⟨pre, hpre, hlast⟩ := normalize_prepend lower hx he (collapsed_ne_nil hnil h)
  rw [hpre]
  exact test_prepend (fun c hc => isWord_of_cut (hlast c hc)) h

/-- Without `$`, it matches it before another text that begins with a cut. -/
theorem test_normalize_append {r : Regex} {y : Str} {e : Char} (hy : y.head? = some e)
    (he : Cut e) (hnil : r.test [] = false) (hr : r.endless = true)
    (h : r.test (normalize lower a) = true) : r.test (normalize lower (a ++ y)) = true := by
  obtain ⟨ext, hext, hhead⟩ := normalize_append lower hy he (collapsed_ne_nil hnil h)
  rw [hext]
  exact test_append hr (fun c hc => isWord_of_cut ((hhead c hc).imp_right And.left)) h

/-- `rm -rf /` is what the command ends with. -/
def EndsAtRoot (lower : LowerCase) (command : Str) : Prop :=
  (seq rmRoot atEnd).test (normalize lower command) = true

/-- `rm -rf /*`, or `rm -rf /` before white space. -/
def PassesRoot (lower : LowerCase) (command : Str) : Prop :=
  (seq rmRoot starOrSpace).test (normalize lower command) = true

theorem rmRootPattern_test :
    rmRootPattern.regex.test (normalize lower a) = true ↔ PassesRoot lower a ∨ EndsAtRoot lower a :=
  test_seq_alt

/-- Before white space, what ended there goes on. -/
theorem rmRoot_append {y : Str} {e : Char} (hy : y.head? = some e) (he : Cut e)
    (hspace : e ≠ ';' ∨ endsSpace false a = true) (h : EndsAtRoot lower a) :
    rmRootPattern.regex.test (normalize lower (a ++ y)) = true := by
  have hnil : (seq rmRoot atEnd).test [] = false := by decide
  obtain ⟨ext, hext, hhead⟩ := normalize_append lower hy he (collapsed_ne_nil hnil h)
  rw [rmRootPattern_test]
  cases ext with
  | nil =>
    refine Or.inr ?_
    unfold EndsAtRoot
    rw [hext, List.append_nil]
    exact h
  | cons c r =>
    refine Or.inl ?_
    rcases hhead c rfl with rfl | ⟨-, rfl, hends⟩
    · unfold PassesRoot
      rw [hext]
      exact test_seq_alt.mpr (Or.inr (test_seq_cls (by decide) (by decide) (by decide) h))
    · rcases hspace with hne | htrue
      · exact absurd rfl hne
      · rw [hends] at htrue
        cases htrue

/-! ## Sequences -/

/-- Denied by more than what `$` matches. -/
def DeniedOtherwise (lower : LowerCase) (extra : List Str) (command : Str) : Prop :=
  PassesRoot lower command ∨ MatchesPattern lower endlessPatterns command ∨
    HasEntry lower extra false (splitSegments command)

theorem denied_iff :
    Denied lower extra a ↔ EndsAtRoot lower a ∨ DeniedOtherwise lower extra a := by
  have hpatterns : MatchesPattern lower (protectedPatterns ++ denyPatterns) a ↔
      MatchesPattern lower endlessPatterns a ∨ PassesRoot lower a ∨ EndsAtRoot lower a := by
    rw [← rmRootPattern_test]
    simp only [MatchesPattern, mem_patterns, or_and_right, exists_or, exists_eq_left]
  unfold Denied DeniedOtherwise
  rw [hpatterns]
  tauto

theorem Sequencer.exists_head (op : Sequencer) :
    ∃ e, op.text.head? = some e ∧ Cut e ∧ (op ≠ .semicolon → e ≠ ';') := by
  cases op with
  | semicolon => exact ⟨_, rfl, Or.inr rfl, fun h => absurd rfl h⟩
  | andThen => exact ⟨_, rfl, Or.inl rfl, fun _ => by decide⟩
  | pipe => exact ⟨_, rfl, Or.inl rfl, fun _ => by decide⟩
  | newline => exact ⟨_, rfl, Or.inl rfl, fun _ => by decide⟩

theorem Sequencer.exists_getLast (op : Sequencer) :
    ∃ e, op.text.getLast? = some e ∧ Cut e := by
  cases op with
  | semicolon => exact ⟨_, rfl, Or.inr rfl⟩
  | andThen => exact ⟨_, rfl, Or.inl rfl⟩
  | pipe => exact ⟨_, rfl, Or.inl rfl⟩
  | newline => exact ⟨_, rfl, Or.inl rfl⟩

/-- What comes second keeps its verdict. -/
theorem denied_sequence_right (ha : Balanced a) (op : Sequencer) (h : Denied lower extra b) :
    Denied lower extra (op.sequence a b) := by
  rcases h with ⟨p, hp, htest⟩ | hentry
  · refine Or.inl ⟨p, hp, ?_⟩
    obtain ⟨e, he, hcut⟩ := op.exists_getLast
    have hlast : (a ++ op.text).getLast? = some e := by
      rw [List.getLast?_append, he]
      rfl
    unfold Sequencer.sequence
    rw [← List.append_assoc]
    exact test_normalize_prepend hlast hcut (test_nil_of_mem p hp) htest
  · refine Or.inr (hentry.mono ?_)
    rw [splitSegments_sequence ha]
    exact List.subset_append_right _ _

/-- What comes first does, but for an end that `$` alone matched. -/
theorem denied_sequence_left (ha : Balanced a) (op : Sequencer) (b : Str)
    (hkept : op = .semicolon → EndsAtRoot lower a →
      endsSpace false a = true ∨ DeniedOtherwise lower extra a)
    (h : Denied lower extra a) : Denied lower extra (op.sequence a b) := by
  obtain ⟨e, he, hcut, hne⟩ := op.exists_head
  have hhead : (op.text ++ b).head? = some e := by
    rw [List.head?_append, he]
    rfl
  have hother (h : DeniedOtherwise lower extra a) : Denied lower extra (op.sequence a b) := by
    refine denied_iff.mpr (Or.inr ?_)
    rcases h with hpass | ⟨p, hp, htest⟩ | hentry
    · exact Or.inl (test_normalize_append hhead hcut (by decide) (by decide) hpass)
    · have hnil := test_nil_of_mem p (mem_patterns.mpr (Or.inl hp))
      exact Or.inr (Or.inl
        ⟨p, hp, test_normalize_append hhead hcut hnil (endless_of_mem p hp) htest⟩)
    · refine Or.inr (Or.inr (hentry.mono ?_))
      rw [splitSegments_sequence ha]
      exact List.subset_append_left _ _
  have hroot (hspace : e ≠ ';' ∨ endsSpace false a = true) (h : EndsAtRoot lower a) :
      Denied lower extra (op.sequence a b) :=
    Or.inl ⟨rmRootPattern, mem_patterns.mpr (Or.inr rfl), rmRoot_append hhead hcut hspace h⟩
  rcases denied_iff.mp h with hends | h
  · by_cases hop : op = .semicolon
    · rcases hkept hop hends with hspace | h
      · exact hroot (Or.inr hspace) hends
      · exact hother h
    · exact hroot (Or.inl (hne hop)) hends
  · exact hother h

/-- No pattern takes a semicolon for its last character. -/
theorem avoidsLast_of_mem :
    ∀ p ∈ endlessPatterns, p.regex.consumes = true ∧ p.regex.avoidsLast ';' = true := by
  decide

/-- Before a semicolon, what `$` matched is not seen. -/
theorem denied_semicolon (hends : endsSpace false a = false) (ha : Balanced a)
    (h : Denied lower extra (Sequencer.semicolon.sequence a [])) :
    DeniedOtherwise lower extra a := by
  have htext : normalize lower (Sequencer.semicolon.sequence a []) = normalize lower a ++ [';'] :=
    normalize_semicolon lower hends
  have hword : isWord ';' = false := by decide
  rcases denied_iff.mp h with hroot | hpass | ⟨p, hp, htest⟩ | hentry
  · unfold EndsAtRoot at hroot
    rw [htext, test_atEnd_append (by decide) (by decide)] at hroot
    cases hroot
  · refine Or.inl ?_
    unfold PassesRoot at hpass
    rw [htext] at hpass
    exact test_of_append (by decide) hword (by decide) (by decide) hpass
  · refine Or.inr (Or.inl ⟨p, hp, ?_⟩)
    rw [htext] at htest
    obtain ⟨hconsumes, havoids⟩ := avoidsLast_of_mem p hp
    exact test_of_append (endless_of_mem p hp) hword hconsumes havoids htest
  · refine Or.inr (Or.inr (hentry.mono ?_))
    have hnil : splitSegments [] = [] := rfl
    rw [splitSegments_sequence ha, hnil, List.append_nil]
    exact List.Subset.refl _

/-- Whatever follows a command, sequencing keeps both verdicts, unless the command is denied
for ending with `rm -rf /` alone and a semicolon comes next. -/
theorem sequencing_keeps_tier_iff (lower : LowerCase) (extra : List Str) (op : Sequencer)
    (a : Str) :
    (∀ b, Balanced a →
      (checkCommand lower a extra).tier.rank ≤
          (checkCommand lower (op.sequence a b) extra).tier.rank ∧
        (Balanced b → (checkCommand lower b extra).tier.rank ≤
          (checkCommand lower (op.sequence a b) extra).tier.rank)) ↔
      (Balanced a → op = .semicolon → EndsAtRoot lower a →
        endsSpace false a = true ∨ DeniedOtherwise lower extra a) := by
  constructor
  · rintro hkept ha rfl hroot
    by_cases hends : endsSpace false a = true
    · exact Or.inl hends
    · refine Or.inr (denied_semicolon (Bool.eq_false_iff.mpr hends) ha ?_)
      have hrank := (hkept [] ha).1
      have hdenied : Denied lower extra a := denied_iff.mpr (Or.inl hroot)
      rcases tier_cases lower extra a with ⟨-, htier⟩ | ⟨hnot, -⟩ | ⟨hnot, -⟩
      · rw [htier] at hrank
        -- Only a denial ranks as high.
        rcases tier_cases lower extra (Sequencer.semicolon.sequence a []) with
          ⟨h, -⟩ | ⟨-, -, hlow⟩ | ⟨-, -, hlow⟩
        · exact h
        · rw [hlow] at hrank
          exact absurd hrank (by decide)
        · rw [hlow] at hrank
          exact absurd hrank (by decide)
      · exact absurd hdenied hnot
      · exact absurd hdenied hnot
  · intro hkept b ha
    have hsegments := splitSegments_sequence ha op b
    constructor
    · refine rank_le (denied_sequence_left ha op b (hkept ha)) fun h => h.mono ?_
      rw [hsegments]
      exact List.subset_append_left _ _
    · intro _
      refine rank_le (denied_sequence_right ha op) fun h => h.mono ?_
      rw [hsegments]
      exact List.subset_append_right _ _

/-! ## A command that ends at the root -/

/-- Lower case of the ASCII letters. -/
def asciiLower : LowerCase where
  toLowerCase s := s.map Char.toLower
  nil := rfl
  apart a b c hc := by
    have hlower : c.toLower = c := by
      rcases hc with rfl | rfl <;> decide
    rw [List.map_append, List.map_cons, hlower]

/-- `rm -rf /` is denied, and `rm -rf /;ls` is allowed. -/
theorem not_sequencing_keeps_tier :
    ¬ ∀ (lower : LowerCase) (extra : List Str) (op : Sequencer) (a b : Str), Balanced a →
      (checkCommand lower a extra).tier.rank ≤
          (checkCommand lower (op.sequence a b) extra).tier.rank ∧
        (Balanced b → (checkCommand lower b extra).tier.rank ≤
          (checkCommand lower (op.sequence a b) extra).tier.rank) := by
  intro hkept
  have ha : Balanced "rm -rf /".toList := by
    unfold Balanced
    decide
  have h := (hkept asciiLower [] .semicolon "rm -rf /".toList "ls".toList ha).1
  have hdeny : (checkCommand asciiLower "rm -rf /".toList []).tier = .deny := by decide +kernel
  have hallow : (checkCommand asciiLower
      (Sequencer.semicolon.sequence "rm -rf /".toList "ls".toList) []).tier = .allow := by
    decide +kernel
  rw [hdeny, hallow] at h
  exact absurd h (by decide)

end HomelabMcp.Guardrails
