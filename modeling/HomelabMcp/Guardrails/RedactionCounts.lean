import HomelabMcp.Guardrails.Markers
import HomelabMcp.Guardrails.Redaction

/-!
# What redaction counts (redaction.ts)

- `honest_redactString`: no marker was put and the text is as it was, or one was and the text
  shows one.
-/

namespace HomelabMcp.Redaction

open Text Guardrails Backtrack

variable {fp : Fingerprint} {keyRe : Pat}

/-- A marker stands in the text. -/
def HasMarker (fp : Fingerprint) (text : Str) : Prop :=
  ∃ a secret b, text = a ++ redactionMarker fp secret ++ b

theorem lasting_hasMarker : Lasting (HasMarker fp) := by
  rintro a _ b ⟨c, secret, d, rfl⟩
  exact ⟨a ++ c, secret, d ++ b, by simp only [List.append_assoc]⟩

theorem hasMarker_marker (secret : Str) : HasMarker fp (redactionMarker fp secret) :=
  ⟨[], secret, [], by simp⟩

theorem hasMarker_maskValue (raw : Str) : HasMarker fp (maskValue fp raw) := by
  unfold maskValue
  split
  · next q _ => exact ⟨_, _, _, rfl⟩
  · exact hasMarker_marker raw

/-! ## Markers are counted -/

theorem marker_redactionMarker (secret : Str) : Marker (redactionMarker fp secret) := by
  have hfield : FingerprintText (fingerprintField fp secret) := by
    unfold fingerprintField
    cases hdigits : fp.digits with
    | none => exact .none
    | some f => exact .digits (fp.hex f hdigits secret).1 (fp.hex f hdigits secret).2
  have hmarker := Marker.mk Nat.toDigits_ne_nil
    (fun _ hc => isDigit_of_mem_numeral (n := (codeUnits secret).length) hc) hfield
  unfold redactionMarker
  simp only [List.append_assoc]
  exact hmarker

/-- The scan for markers finds one. -/
theorem isSome_markerLength (secret rest : Str) :
    (markerLength (redactionMarker fp secret ++ rest)).isSome := by
  rw [markerLength_eq_some_iff.mpr ⟨_, rest, marker_redactionMarker secret, rfl, rfl⟩]
  rfl

theorem countMarkersFrom_of_markerLength {text : Str} (h : (markerLength text).isSome) :
    0 < countMarkersFrom 0 text := by
  cases text with
  | nil => cases h
  | cons c text =>
    obtain ⟨n, hn⟩ := Option.isSome_iff_exists.mp h
    unfold countMarkersFrom
    rw [hn]
    exact Nat.succ_pos _

theorem countMarkersFrom_append {text : Str} (h : (markerLength text).isSome) (a : Str) :
    0 < countMarkersFrom 0 (a ++ text) := by
  induction a with
  | nil => exact countMarkersFrom_of_markerLength h
  | cons c a ih =>
    show 0 < countMarkersFrom 0 (c :: (a ++ text))
    unfold countMarkersFrom
    -- a marker that starts here counts as well
    cases markerLength (c :: (a ++ text)) with
    | none => exact ih
    | some n => exact Nat.succ_pos _

theorem HasMarker.countMarkers_pos {text : Str} (h : HasMarker fp text) : 0 < countMarkers text := by
  obtain ⟨a, secret, b, rfl⟩ := h
  rw [List.append_assoc]
  exact countMarkersFrom_append (isSome_markerLength secret b) a

/-! ## The callbacks -/

/-- The match stays, or is replaced by something with a marker. -/
def KeepsOrMarks (fp : Fingerprint) (m : Found) (r : Str × Nat) : Prop :=
  r = keep m ∨ (r.2 = 1 ∧ HasMarker fp r.1)

theorem keepsOrMarks_keep (m : Found) : KeepsOrMarks fp m (keep m) :=
  .inl rfl

theorem keepsOrMarks_marked (m : Found) (front secret back : Str) :
    KeepsOrMarks fp m (marked fp front secret back) :=
  .inr ⟨rfl, front, secret, back, rfl⟩

theorem keepsOrMarks_maskValue (m : Found) (front raw : Str) :
    KeepsOrMarks fp m (front ++ maskValue fp raw, 1) :=
  .inr ⟨rfl, lasting_hasMarker.append_left front (hasMarker_maskValue raw)⟩

theorem KeepsOrMarks.ite {m : Found} {c : Prop} [Decidable c] {r r' : Str × Nat}
    (h : KeepsOrMarks fp m r) (h' : KeepsOrMarks fp m r') :
    KeepsOrMarks fp m (if c then r else r') := by
  split
  · exact h
  · exact h'

/-- A pass whose callback keeps or marks each match. -/
theorem honest_rewrite {p : Pat} {f : Found → Str × Nat} (h : ∀ m, KeepsOrMarks fp m (f m)) :
    Honest (HasMarker fp) (p.rewrite f) := by
  refine HonestAt.rewrite lasting_hasMarker ⟨fun s t _ _ hzero => ?_, fun m hpos => ?_⟩
  · rcases h (foundAt s t) with hkeep | ⟨hone, -⟩
    · rw [hkeep]
      rfl
    · rw [hone] at hzero
      cases hzero
  · rcases h m with hkeep | ⟨-, hmarker⟩
    · rw [hkeep] at hpos
      cases hpos
    · exact hmarker

theorem keepsOrMarks_markUnlessMarked (m : Found) :
    KeepsOrMarks fp m (markUnlessMarked fp m) :=
  (keepsOrMarks_keep m).ite (keepsOrMarks_marked m _ _ _)

theorem keepsOrMarks_markSecond (m : Found) : KeepsOrMarks fp m (markSecond fp m) :=
  keepsOrMarks_marked m _ _ _

theorem honest_shapePasses : ∀ f ∈ shapePasses fp keyRe, Honest (HasMarker fp) f := by
  unfold shapePasses
  simp only [List.forall_mem_append, List.forall_mem_cons, List.forall_mem_map]
  have hnone : ∀ f ∈ ([] : List (Str → Str × Nat)), Honest (HasMarker fp) f :=
    fun _ h => absurd h List.not_mem_nil
  refine ⟨⟨⟨?_, ?_, ?_, ?_, ?_, ?_, ?_, ?_, ?_, ?_, hnone⟩, ?_⟩, ?_, hnone⟩
  · exact honest_rewrite fun m => (keepsOrMarks_keep m).ite (keepsOrMarks_marked m _ _ _)
  · exact honest_rewrite keepsOrMarks_markSecond
  · exact honest_rewrite keepsOrMarks_markUnlessMarked
  · exact honest_rewrite keepsOrMarks_markUnlessMarked
  · exact honest_rewrite fun m => (keepsOrMarks_keep m).ite (keepsOrMarks_marked m _ _ _)
  · exact honest_rewrite fun m => (keepsOrMarks_marked m _ _ _).ite (keepsOrMarks_keep m)
  · exact honest_rewrite keepsOrMarks_markSecond
  · exact honest_rewrite fun m => (keepsOrMarks_keep m).ite (keepsOrMarks_marked m _ _ _)
  · exact honest_rewrite keepsOrMarks_markUnlessMarked
  · exact honest_rewrite fun m => (keepsOrMarks_keep m).ite (keepsOrMarks_marked m _ _ _)
  · exact fun p _ => honest_rewrite keepsOrMarks_markSecond
  · exact honest_rewrite fun m => keepsOrMarks_marked m _ _ _

/-! ## Lines -/

/-- A line stays, or has a marker. -/
def LineKept (fp : Fingerprint) (line : Str) (r : Str × Nat) : Prop :=
  r = (line, 0) ∨ (r.2 = 1 ∧ HasMarker fp r.1)

theorem lineKept_maskLine (m : Found) (line : Str) : LineKept fp line (maskLine fp m line) := by
  unfold maskLine
  simp only
  split
  · exact .inl rfl
  · split
    · exact .inl rfl
    · refine .inr ⟨rfl, lasting_hasMarker.append_right _ ?_⟩
      exact lasting_hasMarker.append_left _ (hasMarker_maskValue _)

theorem lineKept_redactLine (line : Str) : LineKept fp line (redactLine fp keyRe line) := by
  unfold redactLine
  split
  · split
    · exact lineKept_maskLine _ line
    · exact .inl rfl
  · exact .inl rfl

theorem lineKept_maskBlockLine (line : Str) : LineKept fp line (maskBlockLine fp line) := by
  unfold maskBlockLine
  split
  · exact .inl rfl
  · exact .inr ⟨rfl, lasting_hasMarker.append_left _ (hasMarker_marker _)⟩

theorem redactLinesFrom_spec (block : Option Nat) (l : List Str) :
    ((redactLinesFrom fp keyRe block l).2 = 0 → (redactLinesFrom fp keyRe block l).1 = l) ∧
      (0 < (redactLinesFrom fp keyRe block l).2 →
        ∃ line ∈ (redactLinesFrom fp keyRe block l).1, HasMarker fp line) := by
  induction l generalizing block with
  | nil => exact ⟨fun _ => rfl, fun h => absurd h (Nat.lt_irrefl 0)⟩
  | cons line rest ih =>
    -- What this line does, and what those below it do.
    have hcons {here : Str × Nat} (hhere : LineKept fp line here) (below : Option Nat) :
        (here.2 + (redactLinesFrom fp keyRe below rest).2 = 0 →
          here.1 :: (redactLinesFrom fp keyRe below rest).1 = line :: rest) ∧
        (0 < here.2 + (redactLinesFrom fp keyRe below rest).2 →
          ∃ l ∈ here.1 :: (redactLinesFrom fp keyRe below rest).1, HasMarker fp l) := by
      obtain ⟨hsame, hshown⟩ := ih below
      rcases hhere with rfl | ⟨hone, hmarker⟩
      · rw [Nat.zero_add]
        refine ⟨fun hzero => by rw [hsame hzero], fun hpos => ?_⟩
        obtain ⟨l, hl, hmarker⟩ := hshown hpos
        exact ⟨l, List.mem_cons_of_mem _ hl, hmarker⟩
      · rw [hone]
        exact ⟨fun hzero => by omega, fun _ => ⟨_, List.mem_cons_self, hmarker⟩⟩
    unfold redactLinesFrom
    split
    · refine hcons ?_ block
      split
      · exact .inl rfl
      · exact lineKept_maskBlockLine line
    · exact hcons (lineKept_redactLine line) _

theorem hasMarker_intercalate {l : List Str} {line : Str} (hline : line ∈ l)
    (h : HasMarker fp line) : HasMarker fp ([newline].intercalate l) := by
  induction l with
  | nil => cases hline
  | cons a l ih =>
    cases l with
    | nil =>
      rw [List.intercalate_singleton]
      exact List.mem_singleton.mp hline ▸ h
    | cons b l =>
      rw [List.intercalate_cons_cons]
      rcases List.mem_cons.mp hline with rfl | hrest
      · rw [List.append_assoc]
        exact lasting_hasMarker.append_right _ h
      · exact lasting_hasMarker.append_left _ (ih hrest)

theorem honest_redactLines : Honest (HasMarker fp) (redactLines fp keyRe) where
  same text hzero := by
    show [newline].intercalate _ = text
    rw [(redactLinesFrom_spec none _).1 hzero, List.intercalate_splitOn]
  shown text hpos := by
    obtain ⟨line, hline, hmarker⟩ := (redactLinesFrom_spec none _).2 hpos
    exact hasMarker_intercalate hline hmarker

/-! ## Within a line -/

/-- A piece of text stays, or has a marker. -/
def TailKept (fp : Fingerprint) (tail : Str) (r : Str × Nat) : Prop :=
  (r.2 = 0 → r.1 = tail) ∧ (0 < r.2 → HasMarker fp r.1)

theorem tailKept_same (tail : Str) : TailKept fp tail (tail, 0) :=
  ⟨fun _ => rfl, fun h => absurd h (Nat.lt_irrefl 0)⟩

theorem TailKept.append_left {tail : Str} {r : Str × Nat} (h : TailKept fp tail r) (front : Str) :
    TailKept fp (front ++ tail) (front ++ r.1, r.2) :=
  ⟨fun hzero => congrArg (front ++ ·) (h.1 hzero),
    fun hpos => lasting_hasMarker.append_left front (h.2 hpos)⟩

/-- Up to the first comma, and what comes after it. -/
theorem takeWhile_comma {s : Str} (h : ',' ∈ s) :
    s.takeWhile (fun c => c != ',') ++ [','] ++
      s.drop (s.takeWhile (fun c => c != ',') ++ [',']).length = s := by
  obtain ⟨a, b, rfl, ha⟩ := List.eq_append_cons_of_mem h
  have htake : (a ++ ',' :: b).takeWhile (fun c => c != ',') = a := by
    rw [List.takeWhile_append_of_pos fun c hc => by simpa using fun heq : c = ',' => ha (heq ▸ hc)]
    simp
  rw [htake, List.append_cons a ',' b, List.drop_left]

theorem tailKept_commaTailFrom (fuel : Nat) (before rest : Str) :
    TailKept fp rest (commaTailFrom fp keyRe fuel before rest) := by
  induction fuel generalizing before rest with
  | zero => exact tailKept_same rest
  | succ fuel ih =>
    unfold commaTailFrom
    split
    · exact tailKept_same rest
    · next m t hfind =>
      have hrest := Pat.findFrom_rest hfind
      simp only
      split
      · exact tailKept_same rest
      · split
        · refine ⟨fun h => ?_, fun _ => ?_⟩
          · cases h
          · exact lasting_hasMarker.append_left _ (hasMarker_maskValue _)
        · split
          · next hcomma =>
            have htail := (ih ((t.rest.takeWhile (fun c => c != ',') ++ [',']).reverse ++ t.before)
              (t.rest.drop (t.rest.takeWhile (fun c => c != ',') ++ [',']).length)).append_left
              (t.rest.takeWhile (fun c => c != ',') ++ [','])
            rw [takeWhile_comma hcomma] at htail
            have hboth := htail.append_left (rest.take (rest.length - t.rest.length))
            rw [hrest, ← List.append_assoc] at hboth
            exact hboth
          · exact tailKept_same rest

theorem tailKept_redactCommaTail {token : Str} (h : ',' ∈ token) :
    TailKept fp token (redactCommaTail fp keyRe token) := by
  have htail := (@tailKept_commaTailFrom fp keyRe
    (token.drop (token.takeWhile (fun c => c != ',') ++ [',']).length).length
    (token.takeWhile (fun c => c != ',') ++ [',']).reverse
    (token.drop (token.takeWhile (fun c => c != ',') ++ [',']).length)).append_left
    (token.takeWhile (fun c => c != ',') ++ [','])
  rw [takeWhile_comma h] at htail
  exact htail

/-- The name, the equals sign and the value are all of the match. -/
theorem groups_of_inlinePattern {s t : Spot} (h : inlinePattern.Steps s t) (hs : s.groups = []) :
    (foundAt s t).group 1 ++ (foundAt s t).group 2 ++ (foundAt s t).group 3 = s.upTo t := by
  obtain ⟨m₀, ⟨-, rfl⟩, m₁, h₁, m₂, h₂, m₃, h₃, rfl⟩ := h
  obtain ⟨hadv₁, hgroups₁⟩ := h₁.of_group rfl
  obtain ⟨hadv₂, hgroups₂⟩ := h₂.of_group rfl
  obtain ⟨hadv₃, hgroups₃⟩ := h₃.of_group rfl
  rw [hs] at hgroups₁
  rw [hgroups₁] at hgroups₂
  rw [hgroups₂] at hgroups₃
  rw [(hadv₁.trans hadv₂).upTo_trans hadv₃, hadv₁.upTo_trans hadv₂]
  unfold Found.group Found.group? foundAt
  rw [hgroups₃]
  rfl

theorem honest_inlinePass :
    Honest (HasMarker fp) (inlinePattern.rewrite (inlineMark fp keyRe)) := by
  refine HonestAt.rewrite lasting_hasMarker ⟨fun s t hsteps hgroups hzero => ?_, fun m hpos => ?_⟩
  · unfold inlineMark at hzero ⊢
    simp only at hzero ⊢
    split
    · next hmark => rw [if_pos hmark] at hzero; cases hzero
    · next hmark =>
      rw [if_neg hmark] at hzero
      split
      · rfl
      · next hcomma =>
        rw [if_neg hcomma] at hzero
        rw [not_or, not_not] at hcomma
        show _ ++ (redactCommaTail fp keyRe _).1 = _
        rw [(tailKept_redactCommaTail hcomma.1).1 hzero]
        exact groups_of_inlinePattern hsteps hgroups
  · unfold inlineMark at hpos ⊢
    simp only at hpos ⊢
    split
    · exact lasting_hasMarker.append_left _ (hasMarker_maskValue _)
    · next hmark =>
      rw [if_neg hmark] at hpos
      split
      · next hkeep =>
        rw [if_pos hkeep] at hpos
        cases hpos
      · next hcomma =>
        rw [if_neg hcomma] at hpos
        rw [not_or, not_not] at hcomma
        exact lasting_hasMarker.append_left _ ((tailKept_redactCommaTail hcomma.1).2 hpos)

theorem honest_namePasses : ∀ f ∈ namePasses fp keyRe, Honest (HasMarker fp) f := by
  unfold namePasses
  simp only [List.forall_mem_cons]
  refine ⟨?_, ?_, honest_redactLines, honest_inlinePass, ?_, fun _ h => absurd h List.not_mem_nil⟩
  · exact honest_rewrite fun m =>
      ((keepsOrMarks_maskValue m _ _).ite (keepsOrMarks_marked m _ _ _)).ite (keepsOrMarks_keep m)
  · exact honest_rewrite fun m => (keepsOrMarks_marked m _ _ _).ite (keepsOrMarks_keep m)
  · exact honest_rewrite fun m => (keepsOrMarks_maskValue m _ _).ite (keepsOrMarks_keep m)

theorem honest_passes : ∀ f ∈ passes fp keyRe, Honest (HasMarker fp) f := by
  unfold passes
  simp only [List.forall_mem_append, List.forall_mem_cons]
  refine ⟨⟨honest_shapePasses, honest_namePasses⟩, ?_, ?_, fun _ h => absurd h List.not_mem_nil⟩
  · exact honest_rewrite fun m => (keepsOrMarks_keep m).ite (keepsOrMarks_marked m _ _ _)
  · exact honest_rewrite fun m => (keepsOrMarks_keep m).ite ((keepsOrMarks_keep m).ite
      ((keepsOrMarks_keep m).ite ((keepsOrMarks_marked m _ _ _).ite (keepsOrMarks_keep m))))

theorem honest_redactString (extraKeys : List Str) :
    Honest (HasMarker fp) (redactString fp extraKeys) :=
  Honest.inTurn honest_passes

end HomelabMcp.Redaction
