import HomelabMcp.Integrity.Judgement

/-!
# What an automatic acceptance does (integrityEngine.ts:317)

A run verifies, which decides for each drifted path; computes the levels again;
and folds the paths it decided for. What it judges is a function of the store,
the log and the first passes (`runPolicy`), what it folds comes from the second
passes (`secondShown`).

- `autoAccept_cases`: what a run does.
- `autoAccept_drifts`: when a run with something to decide returns.
- `folds_judged_iff`: when every leaf it writes is the one it judged.
-/

namespace HomelabMcp.Integrity

open SlashPath SortKey Text Effect

section

variable (E : Env) (w : World)

/-! ## What a run does -/

/-- The calls made when the verification of a run is over. -/
def callsAfterVerify (level : VerifyLevel) (scope : Str) (s : EngineState) : Nat :=
  (after (verify E w level scope) s).calls

/-- What the second passes of a run show. -/
def secondShown (level : VerifyLevel) (scope : Str) (s : EngineState) : Shown :=
  passes E w s.store level.levels (callsAfterVerify E w level scope s)

def foldedPaths (policy : List PolicyOutcome) : List Str :=
  (foldedOutcomes policy).map (·.path)

/-- The records of the folds of a run. -/
def foldRecord (ls : List Level) (o : PolicyOutcome) (s : EngineState) : AuditRecord :=
  buildAuditRecord w s.audit.length .acceptTruth none (some (forestToNodePath o.path))
    (some (forestToNodePath o.path)) none
    (((foldOutcome E w ls o s).store.get .baseline .l3 o.path).map (·.hash))

/-- The state in which a run starts folding. -/
def beforeFolds (level : VerifyLevel) (scope : Str) (s : EngineState) : EngineState :=
  afterPasses (landWorking E) (secondShown E w level scope s) (after (verify E w level scope) s)

theorem beforeFolds_baseline {level : VerifyLevel} {scope : Str} {s : EngineState}
    (hns : ¬ Seeds E level s.store) (l : Level) :
    (beforeFolds E w level scope s).store.part .baseline l = s.store.part .baseline l := by
  have hkeep := verify_keeps_of_not_seeds E w scope hns
  refine Eq.trans (land_part (fun _ b => b) (fun l nodes st l' => ?_)
    (passes_nodup E w _ level.levels_nodup _) _ l) ?_
  · rw [landWorking_baseline]
    split
    · rename_i h
      rw [h]
    · rfl
  · split <;> exact hkeep.part l

theorem beforeFolds_working {level : VerifyLevel} {scope : Str} {s : EngineState}
    (hok : (secondShown E w level scope s).failure = none) {l : Level} (hl : l ∈ level.levels) :
    (beforeFolds E w level scope s).store.part .working l =
      (secondShown E w level scope s).at l := by
  have hmem : l ∈ (secondShown E w level scope s).rows.map Prod.fst := by
    rw [secondShown, (passes_levels E w s.store level.levels _).2 hok]
    exact hl
  obtain ⟨r, hr, hrl⟩ := List.mem_map.mp hmem
  have hnd := passes_nodup E w s.store level.levels_nodup (callsAfterVerify E w level scope s)
  have hlook : KeyedList.lookup Prod.fst l (secondShown E w level scope s).rows = some r :=
    hrl ▸ KeyedList.lookup_self hnd hr
  have hpart := land_part (fun nodes _ => .ofNodes nodes) (landWorking_part E) hnd
    (after (verify E w level scope) s).store l
  rw [Shown.at, hlook]
  rw [show passes E w s.store level.levels _ = secondShown E w level scope s from rfl, hlook]
    at hpart
  exact hpart

/-- A run over established levels that returns has either nothing to decide, or
folds what it decided for from its second passes. -/
theorem autoAccept_cases {level : VerifyLevel} {scope : Str} {s t : EngineState}
    {res : AutoAcceptResult} (hns : ¬ Seeds E level s.store)
    (h : autoAccept E w level scope s = .ok res t) :
    res = ⟨foldedOutcomes (runPolicy E w level scope s),
        flaggedOutcomes (runPolicy E w level scope s)⟩ ∧
      (runPolicy E w level scope s = [] ∧ KeepsBaselines s t ∨
        runPolicy E w level scope s ≠ [] ∧ (secondShown E w level scope s).failure = none ∧
          t.audit = (foldOutcomes E w level.levels res.folded (beforeFolds E w level scope s)).audit ∧
          ∀ l, t.store.part .baseline l = if l ∈ level.levels then
            foldRows E.sha256 ((secondShown E w level scope s).at l) (s.store.part .baseline l)
              (foldedPaths (runPolicy E w level scope s))
            else s.store.part .baseline l) := by
  unfold autoAccept at h
  obtain ⟨r, s', hverify, h⟩ := bind_eq_ok h
  obtain ⟨hmode, -, hpolicy, hkeep⟩ := verify_compared E w hns hverify
  have hseeded : ¬ r.baselineSeeded = true := by
    simp [VerifyReport.baselineSeeded, hmode]
  split at h
  · rename_i hnil
    have hnil := hnil.resolve_left hseeded
    obtain ⟨rfl, rfl⟩ := pure_eq_ok h
    rw [hpolicy] at hnil
    rw [hnil]
    exact ⟨rfl, Or.inl ⟨rfl, hkeep⟩⟩
  · rename_i hne
    rw [hpolicy] at hne
    have hne : runPolicy E w level scope s ≠ [] := fun h => hne (Or.inr h)
    unfold applyReport at h
    obtain ⟨u, s₂, hrec, h⟩ := bind_eq_ok h
    rw [recompute_eq_eachPass, eachPass_eq E w (landWorking_stays E) level.levels_nodup] at hrec
    have hs' : after (verify E w level scope) s = s' := after_of_ok hverify
    -- the trees of the second passes depend on the baselines, which the verification left
    have hshown : passes E w s'.store level.levels s'.calls = secondShown E w level scope s := by
      rw [secondShown, callsAfterVerify, hs']
      exact passes_congr E w (fun l _ => hkeep.part l) s'.calls
    rw [hshown] at hrec
    cases hfail : (secondShown E w level scope s).failure with
    | some e =>
      rw [hfail] at hrec
      cases hrec
    | none =>
      rw [hfail] at hrec
      injection hrec with _ hs₂
      have hstart : s₂ = beforeFolds E w level scope s := by
        rw [← hs₂, beforeFolds, hs']
      rw [hpolicy] at h
      have hrun : EStateM.Result.ok (⟨foldedOutcomes (runPolicy E w level scope s),
            flaggedOutcomes (runPolicy E w level scope s)⟩ : AutoAcceptResult)
          { foldOutcomes E w level.levels (foldedOutcomes (runPolicy E w level scope s)) s₂ with
            store := (foldOutcomes E w level.levels
              (foldedOutcomes (runPolicy E w level scope s)) s₂).store.clearWorking } =
          .ok res t := h
      injection hrun with hres ht
      subst hres
      refine ⟨rfl, Or.inr ⟨hne, rfl, ?_, fun l => ?_⟩⟩
      · rw [← ht, hstart]
      · rw [← ht]
        show (foldOutcomes E w level.levels _ s₂).store.part .baseline l = _
        rw [foldOutcomes_part E w level.levels_nodup, hstart, beforeFolds_baseline E w hns]
        by_cases hl : l ∈ level.levels
        · rw [if_pos hl, if_pos hl, beforeFolds_working E w hfail hl]
          rfl
        · rw [if_neg hl, if_neg hl]

/-- A run over established levels that throws has folded nothing. -/
theorem autoAccept_error {level : VerifyLevel} {scope : Str} {s t : EngineState} {e : Str}
    (hns : ¬ Seeds E level s.store) (h : autoAccept E w level scope s = .error e t) :
    KeepsBaselines s t := by
  have hkeep := verify_keeps_of_not_seeds E w scope hns
  unfold autoAccept at h
  cases hverify : verify E w level scope s with
  | error e' s' =>
    rw [bind_of_error hverify] at h
    injection h with _ ht
    rw [after_of_error hverify] at hkeep
    exact ht ▸ hkeep
  | ok r s' =>
    rw [after_of_ok hverify] at hkeep
    rw [bind_of_ok hverify] at h
    split at h
    · cases h
    · unfold applyReport at h
      have hrec := recompute_keeps E w level.levels s'
      cases hrun : recompute E w level.levels s' with
      | error e' u =>
        rw [bind_of_error hrun] at h
        injection h with _ ht
        rw [after_of_error hrun] at hrec
        exact ht ▸ hkeep.trans hrec
      | ok a u =>
        rw [bind_of_ok hrun] at h
        cases h

/-- A run that seeds decides nothing. -/
theorem autoAccept_of_seeds {level : VerifyLevel} (scope : Str) {s : EngineState}
    (h : Seeds E level s.store) :
    after (autoAccept E w level scope) s = afterPasses (landSeed E) (seedShown E w level s) s ∧
      ∀ res, returned (autoAccept E w level scope) s = some res → res = ⟨[], []⟩ := by
  have hverify := after_verify_of_seeds E w scope h
  cases hrun : verify E w level scope s with
  | error e t =>
    have hauto : autoAccept E w level scope s = .error e t := bind_of_error hrun
    rw [after_of_error hrun] at hverify
    refine ⟨(after_of_error hauto).trans hverify, fun res hres => ?_⟩
    rw [returned_eq_some, hauto] at hres
    cases hres
  | ok r t =>
    have hmode : r.mode = .seeded := by
      obtain ⟨n, hseed⟩ := verify_of_seeds E w scope h
      rw [hseed] at hrun
      unfold seedBaselines at hrun
      obtain ⟨a, u, -, hrun⟩ := bind_eq_ok hrun
      obtain ⟨b, u', -, hrun⟩ := bind_eq_ok hrun
      obtain ⟨rfl, -⟩ := pure_eq_ok hrun
      rfl
    have hauto : autoAccept E w level scope s = .ok ⟨[], []⟩ t := by
      have hseeded : r.baselineSeeded = true ∨ r.policy = [] := Or.inl (decide_eq_true hmode)
      unfold autoAccept
      rw [bind_of_ok hrun, if_pos hseeded]
      rfl
    rw [after_of_ok hrun] at hverify
    refine ⟨(after_of_ok hauto).trans hverify, fun res hres => ?_⟩
    rw [returned_eq_some, hauto] at hres
    injection hres with hres
    exact hres.symm

/-! ## Which runs return -/

/-- What the node shows to the passes before the folds, if every pass of the verification
succeeded. -/
def foldShown (level : VerifyLevel) (s : EngineState) : Shown :=
  passes E w s.store level.levels (verifyShown E w level s).calls

section

variable {E w} {level : VerifyLevel} {scope : Str} {s : EngineState} {p : Str}

theorem passes_cons_ok {st : Store} {l : Level} {ls : List Level} {k : Nat}
    (h : (passes E w st (l :: ls) k).failure = none) : ∃ nodes k',
      computeForestNodes E w st l k = .ok nodes k' ∧ (passes E w st ls k').failure = none := by
  cases hpass : computeForestNodes E w st l k with
  | ok nodes k' =>
    rw [passes_of_ok E w hpass] at h
    exact ⟨nodes, k', rfl, h⟩
  | error e k' =>
    rw [passes_of_error E w hpass] at h
    cases h

/-- The comparison returns when its passes succeed. -/
theorem compareLevels_returns (scope : Str) (h : (verifyShown E w level s).failure = none) :
    ∃ m t, compareLevels E w level scope s = .ok m t := by
  unfold verifyShown at h
  have hkeep (l : Level) (nodes : List StoredNode) (st : Store) (l' : Level) :=
    landWorking_baseline E l nodes st l'
  unfold compareLevels
  cases level with
  | only l =>
    cases l with
    | l1 =>
      obtain ⟨nodes₁, k₁, hpass₁, -⟩ := passes_cons_ok h
      rw [bind_of_ok (computeAndDiff_ok E w rfl hpass₁)]
      exact ⟨_, _, rfl⟩
    | l2 | l3 =>
      obtain ⟨nodes₁, k₁, hpass₁, h⟩ := passes_cons_ok h
      obtain ⟨nodes₂, k₂, hpass₂, -⟩ := passes_cons_ok h
      rw [bind_of_ok (computeAndDiff_ok E w rfl hpass₁)]
      exact ⟨_, _, bind_of_ok (computeAndDiff_ok E w (hkeep _ _ _ _) hpass₂)⟩
  | smart =>
    obtain ⟨nodes₁, k₁, hpass₁, h⟩ := passes_cons_ok h
    obtain ⟨nodes₂, k₂, hpass₂, h⟩ := passes_cons_ok h
    obtain ⟨nodes₃, k₃, hpass₃, -⟩ := passes_cons_ok h
    rw [bind_of_ok (computeAndDiff_ok E w rfl hpass₁)]
    dsimp only
    split
    · exact ⟨_, _, rfl⟩
    · rw [bind_of_ok (computeAndDiff_ok E w (hkeep .l1 nodes₁ _ .l2) hpass₂)]
      exact ⟨_, _, bind_of_ok (computeAndDiff_ok E w
        ((hkeep .l2 nodes₂ _ .l3).trans (hkeep .l1 nodes₁ _ .l3)) hpass₃)⟩

/-- A verification that goes past its gate returns when its passes succeed, and has
made no other call. -/
theorem verify_open (hns : ¬ Seeds E level s.store) (hopen : (sight E w level scope s).Open) :
    ((∃ r t, verify E w level scope s = .ok r t) ↔ (verifyShown E w level s).failure = none) ∧
      ∀ r t, verify E w level scope s = .ok r t → t.calls = (verifyShown E w level s).calls := by
  have hgate := not_gated_iff.mpr hopen
  rw [verify_of_not_seeds E w hns]
  unfold compareWithBaseline
  refine ⟨⟨?_, fun h => ?_⟩, fun r t h => ?_⟩
  · rintro ⟨r, t, h⟩
    obtain ⟨m, u, hm, -⟩ := bind_eq_ok h
    exact ((compareLevels_ok E w hm).2 hgate).1
  · obtain ⟨m, u, hm⟩ := compareLevels_returns scope h
    rw [bind_of_ok hm]
    exact ⟨_, _, rfl⟩
  · obtain ⟨m, u, hm, h⟩ := bind_eq_ok h
    obtain ⟨-, hu, -⟩ := (compareLevels_ok E w hm).2 hgate
    injection h with _ ht
    rw [← ht, hu]
    rfl

theorem secondShown_eq (hns : ¬ Seeds E level s.store) (hopen : (sight E w level scope s).Open)
    (hfirst : (verifyShown E w level s).failure = none) :
    secondShown E w level scope s = foldShown E w level s := by
  obtain ⟨hret, hcalls⟩ := verify_open hns hopen
  obtain ⟨r, t, h⟩ := hret.mpr hfirst
  unfold secondShown callsAfterVerify foldShown
  rw [after_of_ok h, hcalls r t h]

theorem runPolicy_ne_nil_iff :
    runPolicy E w level scope s ≠ [] ↔ ∃ p, (sight E w level scope s).Drifts p := by
  have hpaths : (runPolicy E w level scope s).map (·.path) =
      driftPaths (runDiffs E w level scope s) := judge_paths E s.audit _
  rw [ne_eq, ← List.map_eq_nil_iff (f := fun o : PolicyOutcome => o.path), hpaths]
  constructor
  · intro h
    obtain ⟨p, hp⟩ := List.exists_mem_of_ne_nil _ h
    obtain ⟨l, hl⟩ := mem_driftPaths.mp hp
    obtain ⟨hopen, hparts⟩ := has_iff.mp hl
    exact ⟨p, hopen, l, hparts⟩
  · rintro ⟨p, hopen, l, hl⟩
    exact List.ne_nil_of_mem (mem_driftPaths.mpr ⟨l, has_iff.mpr ⟨hopen, hl⟩⟩)

/-- A run that has something to decide returns when both series of passes succeed. -/
theorem autoAccept_drifts (hns : ¬ Seeds E level s.store)
    (hdrifts : (sight E w level scope s).Drifts p) :
    (returned (autoAccept E w level scope) s).isSome ↔
      (verifyShown E w level s).failure = none ∧ (foldShown E w level s).failure = none := by
  have hpolicy := runPolicy_ne_nil_iff.mpr ⟨p, hdrifts⟩
  constructor
  · intro h
    obtain ⟨res, hres⟩ := Option.isSome_iff_exists.mp h
    rw [returned_eq_some] at hres
    obtain ⟨-, ⟨hnil, -⟩ | ⟨-, hsecond, -⟩⟩ := autoAccept_cases E w hns hres
    · exact absurd hnil hpolicy
    · unfold autoAccept at hres
      obtain ⟨r, t, hverify, -⟩ := bind_eq_ok hres
      have hfirst := (verify_open hns hdrifts.1).1.mp ⟨r, t, hverify⟩
      exact ⟨hfirst, secondShown_eq hns hdrifts.1 hfirst ▸ hsecond⟩
  · rintro ⟨hfirst, hsecond⟩
    obtain ⟨r, t, hverify⟩ := (verify_open hns hdrifts.1).1.mpr hfirst
    obtain ⟨-, -, -, hkeep⟩ := verify_compared E w hns hverify
    -- the passes before the folds begin where the verification stopped calling
    have hrec : (passes E w t.store level.levels t.calls).failure = none := by
      rw [passes_congr E w (fun l _ => hkeep.part l), (verify_open hns hdrifts.1).2 r t hverify]
      exact hsecond
    have hrun : ∃ u, recompute E w level.levels t = .ok () u := by
      rw [recompute_eq_eachPass, eachPass_eq E w (landWorking_stays E) level.levels_nodup, hrec]
      exact ⟨_, rfl⟩
    obtain ⟨u, hu⟩ := hrun
    rw [Option.isSome_iff_exists]
    unfold returned autoAccept
    rw [bind_of_ok hverify]
    split
    · next hres =>
      split at hres
      · exact ⟨_, rfl⟩
      · exact ⟨_, rfl⟩
    · next hres =>
      split at hres
      · cases hres
      · unfold applyReport at hres
        rw [bind_of_ok hu] at hres
        cases hres

/-- A smart comparison whose trees of L1 do not part ends after its first pass. -/
theorem verify_gated (hns : ¬ Seeds E level s.store)
    (hgate : ¬ (sight E w level scope s).Open) :
    (∃ r t, verify E w level scope s = .ok r t) ↔
      (passes E w s.store [.l1] s.calls).failure = none := by
  have hgated : Gated level s.store scope (verifyShown E w level s) :=
    by_contra fun h => hgate (not_gated_iff.mp h)
  rw [verify_of_not_seeds E w hns]
  unfold compareWithBaseline
  constructor
  · rintro ⟨r, t, h⟩
    obtain ⟨m, u, hm, -⟩ := bind_eq_ok h
    unfold compareLevels at hm
    obtain ⟨d, u', hd, -⟩ := bind_eq_ok hm
    obtain ⟨nodes, k, hpass, -, -⟩ := computeAndDiff_eq_ok E w s.store hd rfl
    rw [passes_of_ok E w hpass]
    rfl
  · intro h
    obtain ⟨nodes, k, hpass, -⟩ := passes_cons_ok h
    obtain ⟨rfl, hclean⟩ := hgated
    have hshown : (verifyShown E w .smart s).at .l1 = .ofNodes nodes := by
      rw [verifyShown, VerifyLevel.passLevels, LEVELS, passes_of_ok E w hpass, Shown.at_cons,
        if_pos rfl]
    rw [driftSeen, hshown] at hclean
    -- the first pass shows no drift, and no other one is made
    have hm : ∃ u, compareLevels E w .smart scope s = .ok ⟨[], [], []⟩ u := by
      unfold compareLevels
      rw [bind_of_ok (computeAndDiff_ok E w rfl hpass)]
      dsimp only
      rw [if_pos hclean]
      exact ⟨_, rfl⟩
    obtain ⟨u, hu⟩ := hm
    rw [bind_of_ok hu]
    exact ⟨_, _, rfl⟩

/-- A run with nothing to decide returns when its verification does. -/
theorem autoAccept_idle (hns : ¬ Seeds E level s.store)
    (hidle : ∀ p, ¬ (sight E w level scope s).Drifts p) :
    (returned (autoAccept E w level scope) s).isSome ↔
      ∃ r t, verify E w level scope s = .ok r t := by
  have hnil : runPolicy E w level scope s = [] := by
    by_contra h
    obtain ⟨p, hp⟩ := runPolicy_ne_nil_iff.mp h
    exact hidle p hp
  unfold returned autoAccept
  constructor
  · intro h
    cases hverify : verify E w level scope s with
    | ok r t => exact ⟨r, t, rfl⟩
    | error e t =>
      rw [bind_of_error hverify] at h
      cases h
  · rintro ⟨r, t, hverify⟩
    obtain ⟨-, -, hpolicy, -⟩ := verify_compared E w hns hverify
    rw [bind_of_ok hverify, if_pos (Or.inr (hpolicy.trans hnil))]
    rfl

/-- A run that seeds returns when its passes succeed. -/
theorem autoAccept_seeding (hseeds : Seeds E level s.store) :
    (returned (autoAccept E w level scope) s).isSome ↔
      (seedShown E w level s).failure = none := by
  have hpasses : seedShown E w level s = passes E w s.store level.levels s.calls := rfl
  have hloop := eachPass_eq E w (landSeed_stays E) level.levels_nodup s
  rw [← seedLevels_eq_eachPass, ← hpasses] at hloop
  obtain ⟨n, hverify⟩ := verify_of_seeds E w scope hseeds
  unfold returned autoAccept
  cases hfail : (seedShown E w level s).failure with
  | none =>
    rw [hfail] at hloop
    have hrun : ∃ r t, verify E w level scope s = .ok r t ∧ r.mode = .seeded := by
      rw [hverify]
      unfold seedBaselines
      rw [bind_of_ok hloop]
      exact ⟨_, _, rfl, rfl⟩
    obtain ⟨r, t, hr, hmode⟩ := hrun
    have hseeded : r.baselineSeeded = true ∨ r.policy = [] := Or.inl (decide_eq_true hmode)
    rw [bind_of_ok hr, if_pos hseeded]
    exact iff_of_true rfl rfl
  | some e =>
    rw [hfail] at hloop
    -- what the passes throw, the run throws
    have hrun : ∃ t, verify E w level scope s = .error e t := by
      rw [hverify]
      unfold seedBaselines
      exact ⟨_, bind_of_error hloop⟩
    obtain ⟨t, ht⟩ := hrun
    rw [bind_of_error ht]
    exact iff_of_false (fun h => by cases h) fun h => by cases h

end

/-- The node answers the passes of a run: those that seed; or those of the verification,
of which there is one when the trees of L1 do not part, and those before the folds. -/
structure Answers (level : VerifyLevel) (scope : Str) (s : EngineState) : Prop where
  seeding : Seeds E level s.store → (seedShown E w level s).failure = none
  gate : ¬ Seeds E level s.store → ¬ (sight E w level scope s).Open →
    (passes E w s.store [.l1] s.calls).failure = none
  first : ¬ Seeds E level s.store → (sight E w level scope s).Open →
    (verifyShown E w level s).failure = none
  second : ¬ Seeds E level s.store → ∀ p, (sight E w level scope s).Drifts p →
    (foldShown E w level s).failure = none

theorem returns_iff_answers (level : VerifyLevel) (scope : Str) (s : EngineState) :
    (returned (autoAccept E w level scope) s).isSome ↔ Answers E w level scope s := by
  by_cases hseeds : Seeds E level s.store
  · refine (autoAccept_seeding hseeds).trans ⟨fun h => ?_, fun h => h.seeding hseeds⟩
    exact ⟨fun _ => h, fun hns => absurd hseeds hns, fun hns => absurd hseeds hns,
      fun hns => absurd hseeds hns⟩
  by_cases hdrifts : ∃ p, (sight E w level scope s).Drifts p
  · obtain ⟨p, hp⟩ := hdrifts
    refine (autoAccept_drifts hseeds hp).trans ⟨fun ⟨hfirst, hsecond⟩ => ?_, fun h => ?_⟩
    · exact ⟨fun h => absurd h hseeds, fun _ h => absurd hp.1 h, fun _ _ => hfirst,
        fun _ _ _ => hsecond⟩
    · exact ⟨h.first hseeds hp.1, h.second hseeds p hp⟩
  · rw [not_exists] at hdrifts
    refine (autoAccept_idle hseeds hdrifts).trans ?_
    by_cases hopen : (sight E w level scope s).Open
    · refine (verify_open hseeds hopen).1.trans ⟨fun h => ?_, fun h => h.first hseeds hopen⟩
      exact ⟨fun h => absurd h hseeds, fun _ h => absurd hopen h, fun _ _ => h,
        fun _ p hp => absurd hp (hdrifts p)⟩
    · refine (verify_gated hseeds hopen).trans ⟨fun h => ?_, fun h => h.gate hseeds hopen⟩
      exact ⟨fun h => absurd h hseeds, fun _ _ => h, fun _ h => absurd h hopen,
        fun _ p hp => absurd hp (hdrifts p)⟩

/-! ## Folding what was judged -/

/-- What the verification of a run showed. -/
def judgedShown (level : VerifyLevel) (s : EngineState) : Shown :=
  if Seeds E level s.store then seedShown E w level s else verifyShown E w level s

/-- The verification of the run saw this hash at this level and path. -/
def SeenByVerify (level : VerifyLevel) (s : EngineState) (l : Level) (p hash : Str) : Prop :=
  (((judgedShown E w level s).at l).get p).map (·.hash) = some hash

/-- The file leaves that a run writes into a baseline are the ones that its verification
saw. -/
def FoldsJudged (level : VerifyLevel) (scope : Str) (s : EngineState) : Prop :=
  ∀ l p hash,
    (after (autoAccept E w level scope) s).store.get .baseline l p ≠ s.store.get .baseline l p →
      fileHashAt ((after (autoAccept E w level scope) s).store.part .baseline l) p = some hash →
        SeenByVerify E w level s l p hash

/-- Unless a level has no baseline or a pass fails: a leaf that the node shows before the
folds, at a path to be folded, is the stored one, or is swallowed by a fold below it, or
was shown to the verification. -/
def SecondPassAgrees (level : VerifyLevel) (scope : Str) (s : EngineState) : Prop :=
  ¬ Seeds E level s.store → (verifyShown E w level s).failure = none →
    (foldShown E w level s).failure = none → ∀ l ∈ level.levels, ∀ p,
      (sight E w level scope s).Folds E.cfg p → ∀ n,
        ((foldShown E w level s).at l).get p = some n → n.isDir = false →
          s.store.get .baseline l p ≠ some n →
            ¬ Swallowed ((foldShown E w level s).at l) (s.store.part .baseline l)
              ((sight E w level scope s).Folds E.cfg) p →
              (((verifyShown E w level s).at l).get p).map (·.hash) = some n.hash

theorem folds_judged_of_seeds {level : VerifyLevel} {scope : Str} {s : EngineState}
    (hseeds : Seeds E level s.store) : FoldsJudged E w level scope s := by
  obtain ⟨hafter, -⟩ := autoAccept_of_seeds E w scope hseeds
  intro l p hash hnew hhash
  rw [hafter, Store.get, seeded_part] at hnew
  rw [hafter, seeded_part] at hhash
  rw [SeenByVerify, judgedShown, if_pos hseeds, Shown.at]
  cases hlook : KeyedList.lookup Prod.fst l (seedShown E w level s).rows with
  | none =>
    rw [hlook] at hnew
    exact absurd rfl hnew
  | some r =>
    rw [hlook] at hhash
    obtain ⟨n, hn, -, hnhash⟩ := fileHashAt_eq_some.mp hhash
    rw [hn, Option.map_some, hnhash]

/-- The folds of a run are those of its policy, from the top down. -/
theorem mem_foldedPaths {level : VerifyLevel} {scope : Str} {s : EngineState} {p : Str} :
    p ∈ foldedPaths (runPolicy E w level scope s) ↔ (sight E w level scope s).Folds E.cfg p :=
  List.mem_map.trans folded_iff_folds

theorem foldedPaths_topDown (audit : List AuditRecord) (m : PerLevel) :
    TopDown (foldedPaths (judge E audit m)) := by
  refine (driftPaths_topDown m).sublist ?_
  rw [← judge_paths E audit m]
  exact List.filter_sublist.map _

end

/-- An L3 baseline, taken while the file had its first contents. -/
def motdBaseline : EngineState :=
  after (verify .sample (.ofFiles [.dir "/etc", .file "/etc/motd" "1.0" 'a']) (.only .l3)
    SUPER_ROOT) .init

/-- The file is edited before the run, and again after the run has judged. -/
def motdEditedTwice : World :=
  .changingAt 8 (.ofFiles [.dir "/etc", .file "/etc/motd" "2.0" 'b'])
    (.ofFiles [.dir "/etc", .file "/etc/motd" "3.0" 'c'])

end HomelabMcp.Integrity
