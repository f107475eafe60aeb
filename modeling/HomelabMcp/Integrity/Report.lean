import HomelabMcp.Integrity.VerifyFrame

/-!
# What a verification reports (integrityEngine.ts:241)

The drift of a report is a function of the log and of the diffs at the compared
levels; a diff has an entry at a path exactly where the walk comes by and the
two sides differ as file leaves, or one of them is missing.

- `verify_compared`: the report of a verification of established levels.
- `driftAt_levelDrift`: which entry a level has at a path.
- `flagged_iff`, `folded_iff`: which drifted paths the policy holds back.
-/

namespace HomelabMcp.Integrity

open SlashPath SortKey Text Effect

/-! ## The report as a function of the passes -/

instance (level : VerifyLevel) (st : Store) (scope : Str) (shown : Shown) :
    Decidable (Gated level st scope shown) :=
  inferInstanceAs (Decidable (_ ∧ _))

/-- The diffs that a report is made of. -/
def comparedDiffs (level : VerifyLevel) (st : Store) (scope : Str) (shown : Shown) : PerLevel :=
  let entries (l : Level) : List DriftEntry :=
    if l ∈ level.levels ∧ ¬ Gated level st scope shown then driftSeen st scope shown l else []
  ⟨entries .l1, entries .l2, entries .l3⟩

theorem comparedDiffs_at (level : VerifyLevel) (st : Store) (scope : Str) (shown : Shown)
    (l : Level) : (comparedDiffs level st scope shown).at l =
      if l ∈ level.levels ∧ ¬ Gated level st scope shown then driftSeen st scope shown l else [] := by
  cases l <;> rfl

theorem PerLevel.ext_at {m m' : PerLevel} (h : ∀ l, m.at l = m'.at l) : m = m' := by
  have h₁ : m.l1 = m'.l1 := h .l1
  have h₂ : m.l2 = m'.l2 := h .l2
  have h₃ : m.l3 = m'.l3 := h .l3
  obtain ⟨_, _, _⟩ := m
  obtain ⟨_, _, _⟩ := m'
  simp_all

/-- The drift of a report. -/
def driftOf (audit : List AuditRecord) (m : PerLevel) : List VerifyDriftLeaf :=
  (driftPaths m).map (driftLeaf (buildExplainIndex audit) m)

/-- The policy's outcomes on a report. -/
def judge (E : Env) (audit : List AuditRecord) (m : PerLevel) : List PolicyOutcome :=
  applyAcceptPolicy ((driftOf audit m).map toLeafDrift) (policyConfig E)

section

variable (E : Env) (w : World)

def runDiffs (level : VerifyLevel) (scope : Str) (s : EngineState) : PerLevel :=
  comparedDiffs level s.store scope (verifyShown E w level s)

def runPolicy (level : VerifyLevel) (scope : Str) (s : EngineState) : List PolicyOutcome :=
  judge E s.audit (runDiffs E w level scope s)

theorem compareLevels_eq {level : VerifyLevel} {scope : Str} {s s' : EngineState} {m : PerLevel}
    (h : compareLevels E w level scope s = .ok m s') : m = runDiffs E w level scope s := by
  obtain ⟨hgated, hopen⟩ := compareLevels_ok E w h
  refine PerLevel.ext_at fun l => ?_
  rw [runDiffs, comparedDiffs_at]
  by_cases hg : Gated level s.store scope (verifyShown E w level s)
  · rw [hgated hg, if_neg fun h => h.2 hg]
    cases l <;> rfl
  · simp only [(hopen hg).2.2 l, hg, not_false_eq_true, and_true]

/-- A verification of established levels reports the diffs of its passes and
leaves the baselines and the log alone. -/
theorem verify_compared {level : VerifyLevel} {scope : Str} {s s' : EngineState}
    {r : VerifyReport} (hns : ¬ Seeds E level s.store)
    (h : verify E w level scope s = .ok r s') :
    r.mode = .compared ∧ r.drift = driftOf s.audit (runDiffs E w level scope s) ∧
      r.policy = runPolicy E w level scope s ∧ KeepsBaselines s s' := by
  have hkeep := verify_keeps_of_not_seeds E w scope hns
  rw [after_of_ok h] at hkeep
  rw [verify_of_not_seeds E w hns] at h
  unfold compareWithBaseline at h
  obtain ⟨m, t, hm, h⟩ := bind_eq_ok h
  have ht := compareLevels_keeps E w level scope s
  rw [after_of_ok hm] at ht
  obtain rfl := compareLevels_eq E w hm
  have hrun : EStateM.Result.ok (assembleReport E t level scope (runDiffs E w level scope s))
      { t with store := t.store.clearWorking } = .ok r s' := h
  injection hrun with hr hs
  subst hr
  refine ⟨rfl, ?_, ?_, hkeep⟩
  · show driftOf t.audit _ = _
    rw [ht.audit]
  · show judge E t.audit _ = _
    rw [ht.audit]
    rfl

end

/-! ## The entries of a level -/

section

variable {b w : Partition} {scope p : Str} {e : DriftEntry}

theorem isLeafDrift_of_leaf {n : StoredNode} (hw : w.get e.path = some n) (hn : n.isDir = false) :
    isLeafDrift b w e = true := by
  have hnone := Option.isNone_iff_eq_none.mp (Option.isSome_eq_false_iff.mp hn)
  unfold isLeafDrift
  rw [hw]
  simp [hnone]

/-- A level has an entry at a path the walk visits, when it reports one there
that is about a file leaf or a missing side. -/
theorem driftAt_levelDrift : driftAt (levelDrift b w scope) p = some e ↔
    Visited b w scope p ∧ entryAt b w p = some e ∧ isLeafDrift b w e = true := by
  have hmem : ∀ {e'}, e' ∈ levelDrift b w scope →
      Visited b w scope e'.path ∧ entryAt b w e'.path = some e' ∧ isLeafDrift b w e' = true := by
    intro e' he'
    have he' := (KeyedList.mem_upsertAll he').resolve_right List.not_mem_nil
    obtain ⟨hdiff, hleaf⟩ := List.mem_filter.mp he'
    obtain ⟨q, hv, hq⟩ := mem_treeDiff.mp hdiff
    rw [entryAt_path hq]
    exact ⟨hv, hq, hleaf⟩
  constructor
  · intro h
    have hp : e.path = p := KeyedList.key_of_lookup h
    exact hp ▸ hmem (KeyedList.mem_of_lookup h)
  · rintro ⟨hv, he, hleaf⟩
    have hp := entryAt_path he
    have hin : e ∈ (treeDiff b w scope).filter (isLeafDrift b w) :=
      List.mem_filter.mpr ⟨mem_treeDiff.mpr ⟨p, hv, he⟩, hleaf⟩
    obtain ⟨e', he', hpath⟩ : ∃ e' ∈ levelDrift b w scope, e'.path = e.path :=
      KeyedList.exists_mem_upsertAll hin
    obtain ⟨-, he'', -⟩ := hmem he'
    obtain rfl : e' = e := Option.some.inj (he''.symm.trans (hpath ▸ hp ▸ he))
    have hnd : ((levelDrift b w scope).map (·.path)).Nodup :=
      KeyedList.nodup_upsertAll _ List.nodup_nil
    exact (KeyedList.lookup_eq_some_iff hnd).mpr ⟨he', hp⟩

end

/-! ## The drift of a report -/

variable {m : PerLevel} {audit : List AuditRecord} {d : VerifyDriftLeaf} {p : Str}

/-- A level of the report has an entry at a path. -/
def PerLevel.has (m : PerLevel) (l : Level) (p : Str) : Prop :=
  (driftAt (m.at l) p).isSome

theorem mem_driftPaths : p ∈ driftPaths m ↔ ∃ l, m.has l p := by
  unfold driftPaths PerLevel.has driftAt
  rw [mem_sortOn, List.mem_dedup]
  simp only [KeyedList.lookup_isSome_iff, List.mem_map, List.mem_append]
  constructor
  · rintro ⟨e, (h | h) | h, rfl⟩
    · exact ⟨.l1, e, h, rfl⟩
    · exact ⟨.l2, e, h, rfl⟩
    · exact ⟨.l3, e, h, rfl⟩
  · rintro ⟨l, e, h, rfl⟩
    cases l with
    | l1 => exact ⟨e, Or.inl (Or.inl h), rfl⟩
    | l2 => exact ⟨e, Or.inl (Or.inr h), rfl⟩
    | l3 => exact ⟨e, Or.inr h, rfl⟩

theorem driftPaths_nodup (m : PerLevel) : (driftPaths m).Nodup :=
  sortOn_nodup codeUnits (List.nodup_dedup _)

theorem mem_driftOf : d ∈ driftOf audit m ↔
    d = driftLeaf (buildExplainIndex audit) m d.path ∧ ∃ l, m.has l d.path := by
  unfold driftOf
  rw [List.mem_map]
  constructor
  · rintro ⟨p, hp, rfl⟩
    exact ⟨rfl, mem_driftPaths.mp hp⟩
  · rintro ⟨hd, hl⟩
    exact ⟨d.path, mem_driftPaths.mpr hl, hd.symm⟩

theorem exists_driftOf {l : Level} (h : m.has l p) : ∃ d ∈ driftOf audit m, d.path = p :=
  ⟨driftLeaf (buildExplainIndex audit) m p, mem_driftOf.mpr ⟨rfl, l, h⟩, rfl⟩

/-- Drift is drift at some level. -/
theorem driftOf_level (h : d ∈ driftOf audit m) : d.l1 = true ∨ d.l2 = true ∨ d.l3 = true := by
  obtain ⟨hd, l, hl⟩ := mem_driftOf.mp h
  rw [hd]
  cases l with
  | l1 => exact Or.inl hl
  | l2 => exact Or.inr (Or.inl hl)
  | l3 => exact Or.inr (Or.inr hl)

/-! ## The policy on a report -/

/-- A drifted path is not for the run to fold: it is unexplained, and sensitive,
or a configuration file, or further content after the budget is spent by what
comes before it. -/
def HeldBack (cfg : Config) (before : List VerifyDriftLeaf) (d : VerifyDriftLeaf) : Prop :=
  d.explainedBy = none ∧ (isSensitivePath d.nodePath cfg.sensitiveGlobs = true ∨
    (d.l2 = true ∧ cfg.allowL2AutoAccept = false) ∨
    (d.l2 = false ∧ d.l3 = true ∧ cfg.maxUnexplainedL3 ≤ (before.map toLeafDrift).countP
      (asksBudget ⟨cfg.maxUnexplainedL3, cfg.allowL2AutoAccept, cfg.sensitiveGlobs⟩)))

/-- The outcomes of a report, one for each drifted path. -/
theorem mem_judge {E : Env} {o : PolicyOutcome} : o ∈ judge E audit m ↔
    ∃ before d later, driftOf audit m = before ++ d :: later ∧
      o = (decideLeaf (policyConfig E) (budgetLeft (policyConfig E) E.cfg.maxUnexplainedL3
        (before.map toLeafDrift)) (toLeafDrift d)).1 := by
  unfold judge
  rw [mem_applyAcceptPolicy_iff]
  constructor
  · rintro ⟨pre, x, post, hsplit, ho⟩
    obtain ⟨before, rest, hds, rfl, hrest⟩ := List.map_eq_append_iff.mp hsplit
    obtain ⟨d, later, rfl, rfl, rfl⟩ := List.map_eq_cons_iff.mp hrest
    exact ⟨before, d, later, hds, ho⟩
  · rintro ⟨before, d, later, hds, ho⟩
    exact ⟨before.map toLeafDrift, toLeafDrift d, later.map toLeafDrift, by rw [hds]; simp, ho⟩

/-- The decision at a place of the report. -/
theorem decision_flag_iff {E : Env} {before later : List VerifyDriftLeaf}
    (hds : driftOf audit m = before ++ d :: later) :
    (decideLeaf (policyConfig E) (budgetLeft (policyConfig E) E.cfg.maxUnexplainedL3
      (before.map toLeafDrift)) (toLeafDrift d)).1.decision = .flag ↔ HeldBack E.cfg before d := by
  have hd : d ∈ driftOf audit m := hds ▸ List.mem_append_right _ List.mem_cons_self
  refine (decideLeaf_flag (policyConfig E) _ (toLeafDrift d) (driftOf_level hd)).trans ?_
  refine and_congr_left fun _ => ?_
  show d.explainedBy.isSome = false ↔ _
  rw [Option.isSome_eq_false_iff, Option.isNone_iff_eq_none]

theorem flagged_iff {E : Env} : (∃ o ∈ flaggedOutcomes (judge E audit m), o.path = p) ↔
    ∃ before d later, driftOf audit m = before ++ d :: later ∧ d.path = p ∧
      HeldBack E.cfg before d := by
  constructor
  · rintro ⟨o, ho, rfl⟩
    obtain ⟨hmem, hflag⟩ := List.mem_filter.mp ho
    obtain ⟨before, d, later, hds, rfl⟩ := mem_judge.mp hmem
    refine ⟨before, d, later, hds, (decideLeaf_path _ _ (toLeafDrift d)).symm, (decision_flag_iff hds).mp ?_⟩
    have := of_decide_eq_true hflag
    revert this
    cases (decideLeaf (policyConfig E) _ (toLeafDrift d)).1.decision <;> simp
  · rintro ⟨before, d, later, hds, rfl, hheld⟩
    refine ⟨_, List.mem_filter.mpr ⟨mem_judge.mpr ⟨before, d, later, hds, rfl⟩, ?_⟩,
      decideLeaf_path _ _ (toLeafDrift d)⟩
    rw [(decision_flag_iff hds).mpr hheld]
    rfl

theorem folded_iff {E : Env} : (∃ o ∈ foldedOutcomes (judge E audit m), o.path = p) ↔
    ∃ before d later, driftOf audit m = before ++ d :: later ∧ d.path = p ∧
      ¬ HeldBack E.cfg before d := by
  constructor
  · rintro ⟨o, ho, rfl⟩
    obtain ⟨hmem, hfold⟩ := List.mem_filter.mp ho
    obtain ⟨before, d, later, hds, rfl⟩ := mem_judge.mp hmem
    refine ⟨before, d, later, hds, (decideLeaf_path _ _ (toLeafDrift d)).symm, fun hheld => ?_⟩
    have := of_decide_eq_true hfold
    rw [(decision_flag_iff hds).mpr hheld] at this
    cases this
  · rintro ⟨before, d, later, hds, rfl, hheld⟩
    refine ⟨_, List.mem_filter.mpr ⟨mem_judge.mpr ⟨before, d, later, hds, rfl⟩, ?_⟩,
      decideLeaf_path _ _ (toLeafDrift d)⟩
    have := mt (decision_flag_iff hds).mp hheld
    refine decide_eq_true ?_
    revert this
    cases (decideLeaf (policyConfig E) _ (toLeafDrift d)).1.decision <;> simp

end HomelabMcp.Integrity
