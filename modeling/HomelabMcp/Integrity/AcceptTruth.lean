import HomelabMcp.Integrity.Passes

/-!
# Accepting the current state (integrityEngine.ts:289)

The three levels are computed and promoted one after the other. A pass that
fails leaves the levels before it promoted and no record; passes that succeed
may have seen different moments of the node.

- `acceptTruth_cases`: what the call leaves, when it returns and when it throws.
- `accept_truth_all_or_nothing_iff`: when it is atomic, audited and of one moment.
-/

namespace HomelabMcp.Integrity

open SlashPath SortKey Text Effect

/-- A forest path of some source that is a configuration file there. -/
def IsConfigPath (cfg : Config) (p : Str) : Prop :=
  ∃ src : SubtreeSource, Below src.pathPrefix p ∧ isConfigFile cfg src p = true

section

variable (E : Env) (w : World)

/-- The passes of an accept-truth. -/
def acceptShown (s : EngineState) : Shown :=
  passes E w s.store LEVELS s.calls

/-- The state after the promotions of an accept-truth, or after those that the
first failing pass let through. -/
def acceptPromoted (scope : Str) (s : EngineState) : EngineState :=
  afterPasses (landPromoted E (storeScopeOf scope)) (acceptShown E w s) s

/-- The call throws with its first failing pass, and then has appended nothing;
otherwise it appends one record. -/
theorem acceptTruth_cases (scope : Str) (s : EngineState) :
    (∃ e, (acceptShown E w s).failure = some e ∧
      acceptTruth E w scope s = .error e (acceptPromoted E w scope s)) ∨
    ((acceptShown E w s).failure = none ∧ ∃ (res : AcceptResult) (t : EngineState)
      (r : AuditRecord), acceptTruth E w scope s = .ok res t ∧ r.tool = .acceptTruth ∧
        t.audit = s.audit ++ [r] ∧
        ∀ l, t.store.part .baseline l = (acceptPromoted E w scope s).store.part .baseline l) := by
  have hloop := eachPass_eq E w (landPromoted_stays E (storeScopeOf scope))
    (show LEVELS.Nodup by decide) s
  rw [← promoteLevels_eq_eachPass] at hloop
  have hrun : acceptTruth E w scope s = (promoteLevels E w (storeScopeOf scope) LEVELS >>= fun _ =>
      finishAccept w scope ((s.store.get .baseline .l3 SUPER_ROOT).map (·.hash))) s := rfl
  rw [hrun]
  cases hfail : (acceptShown E w s).failure with
  | some e =>
    rw [show (passes E w s.store LEVELS s.calls).failure = some e from hfail] at hloop
    exact Or.inl ⟨e, rfl, bind_of_error hloop⟩
  | none =>
    rw [show (passes E w s.store LEVELS s.calls).failure = none from hfail] at hloop
    exact Or.inr ⟨rfl, _, _, _, bind_of_ok hloop, rfl, rfl, fun l => rfl⟩

theorem after_acceptTruth_part (scope : Str) (s : EngineState) (l : Level) :
    (after (acceptTruth E w scope) s).store.part .baseline l =
      (acceptPromoted E w scope s).store.part .baseline l := by
  rcases acceptTruth_cases E w scope s with ⟨e, -, h⟩ | ⟨-, res, t, r, h, -, -, hpart⟩
  · rw [after_of_error h]
  · rw [after_of_ok h, hpart]

theorem acceptPromoted_part (scope : Str) (s : EngineState) (l : Level) :
    (acceptPromoted E w scope s).store.part .baseline l =
      match KeyedList.lookup Prod.fst l (acceptShown E w s).rows with
      | some r => promoted E (storeScopeOf scope) r.2 (s.store.part .baseline l)
      | none => s.store.part .baseline l :=
  land_part (promoted E (storeScopeOf scope)) (landPromoted_part E (storeScopeOf scope))
    (passes_nodup E w _ (by decide) _) _ _

/-- Where no pass failed, the scope's rows are the ones its level's pass showed. -/
theorem get_acceptPromoted {scope : Str} {s : EngineState}
    (hok : (acceptShown E w s).failure = none) (l : Level) {p : Str}
    (hp : E.under p (storeScopeOf scope) = true) :
    (acceptPromoted E w scope s).store.get .baseline l p = ((acceptShown E w s).at l).get p := by
  have hmem : l ∈ (acceptShown E w s).rows.map Prod.fst := by
    rw [acceptShown, (passes_levels E w s.store LEVELS s.calls).2 hok]
    cases l <;> decide
  obtain ⟨r, hr, hrl⟩ := List.mem_map.mp hmem
  have hlook := KeyedList.lookup_self (passes_nodup E w s.store (by decide) s.calls) hr
  rw [hrl] at hlook
  rw [Store.get, acceptPromoted_part, Shown.at, acceptShown, hlook]
  exact (get_promoted E _ _ _ p).trans (if_pos hp)

/-- What the call promises: throwing changes no baseline, a change is recorded
once, and the configuration files of the scope are the same at L2 and L3. -/
structure AllOrNothing (scope : Str) (s : EngineState) : Prop where
  rejected : returned (acceptTruth E w scope) s = none → ∀ l p,
    (after (acceptTruth E w scope) s).store.get .baseline l p = s.store.get .baseline l p
  audited : (∃ l p, (after (acceptTruth E w scope) s).store.get .baseline l p ≠
      s.store.get .baseline l p) →
    ∃ r : AuditRecord, (after (acceptTruth E w scope) s).audit = s.audit ++ [r] ∧
      r.tool = .acceptTruth
  one_moment : returned (acceptTruth E w scope) s ≠ none → ∀ p, IsConfigPath E.cfg p →
    E.under p (storeScopeOf scope) = true →
      fileHashAt ((after (acceptTruth E w scope) s).store.part .baseline .l2) p =
        fileHashAt ((after (acceptTruth E w scope) s).store.part .baseline .l3) p

/-- The levels that were computed before a pass failed are, in the scope, as
their baselines already are. -/
def FailsClean (scope : Str) (s : EngineState) : Prop :=
  (acceptShown E w s).failure ≠ none → ∀ r ∈ (acceptShown E w s).rows, ∀ p,
    E.under p (storeScopeOf scope) = true →
      (Partition.ofNodes r.2).get p = s.store.get .baseline r.1 p

/-- The passes at L2 and at L3 saw the same configuration files. -/
def SameConfigSeen (scope : Str) (s : EngineState) : Prop :=
  (acceptShown E w s).failure = none → ∀ p, IsConfigPath E.cfg p →
    E.under p (storeScopeOf scope) = true →
      fileHashAt ((acceptShown E w s).at .l2) p = fileHashAt ((acceptShown E w s).at .l3) p

theorem returned_acceptTruth_eq_none (scope : Str) (s : EngineState) :
    returned (acceptTruth E w scope) s = none ↔ (acceptShown E w s).failure ≠ none := by
  unfold returned
  rcases acceptTruth_cases E w scope s with ⟨e, hfail, h⟩ | ⟨hok, res, t, r, h, -⟩
  · rw [h, hfail]
    simp
  · rw [h, hok]
    simp

/-- A failing call keeps the baselines exactly when the promotions before the
failure changed nothing. -/
theorem unchanged_iff_failsClean {scope : Str} {s : EngineState}
    (hfail : (acceptShown E w s).failure ≠ none) :
    (∀ l p, (after (acceptTruth E w scope) s).store.get .baseline l p =
      s.store.get .baseline l p) ↔ FailsClean E w scope s := by
  have hnd : ((acceptShown E w s).rows.map Prod.fst).Nodup :=
    passes_nodup E w s.store (by decide) s.calls
  constructor
  · intro h _ r hr p hp
    have hrow := h r.1 p
    rw [Store.get, after_acceptTruth_part, acceptPromoted_part,
      KeyedList.lookup_self hnd hr] at hrow
    rw [← hrow]
    exact ((get_promoted E _ _ _ p).trans (if_pos hp)).symm
  · intro h l p
    rw [Store.get, after_acceptTruth_part, acceptPromoted_part]
    cases hlook : KeyedList.lookup Prod.fst l (acceptShown E w s).rows with
    | none => rfl
    | some r =>
      have hl : r.1 = l := KeyedList.key_of_lookup hlook
      subst hl
      refine (get_promoted E _ _ _ p).trans ?_
      split
      · rename_i hp
        exact h hfail r (KeyedList.mem_of_lookup hlook) p hp
      · rfl

theorem accept_truth_all_or_nothing_iff (scope : Str) (s : EngineState) :
    AllOrNothing E w scope s ↔ FailsClean E w scope s ∧ SameConfigSeen E w scope s := by
  have hreturned := returned_acceptTruth_eq_none E w scope s
  have hseen : ∀ l p, E.under p (storeScopeOf scope) = true →
      (acceptShown E w s).failure = none →
        fileHashAt ((after (acceptTruth E w scope) s).store.part .baseline l) p =
          fileHashAt ((acceptShown E w s).at l) p := fun l p hp hok => by
    rw [after_acceptTruth_part]
    exact fileHashAt_congr (get_acceptPromoted E w hok l hp)
  constructor
  · intro h
    refine ⟨fun hfail => ?_, fun hok p hcfg hp => ?_⟩
    · exact (unchanged_iff_failsClean E w hfail).mp (h.rejected (hreturned.mpr hfail)) hfail
    · have := h.one_moment (fun hnone => hreturned.mp hnone hok) p hcfg hp
      rwa [hseen .l2 p hp hok, hseen .l3 p hp hok] at this
  · rintro ⟨hclean, hsame⟩
    refine ⟨fun hnone => ?_, ?_, fun hsome p hcfg hp => ?_⟩
    · exact (unchanged_iff_failsClean E w (hreturned.mp hnone)).mpr hclean
    · rintro ⟨l, p, hne⟩
      rcases acceptTruth_cases E w scope s with ⟨e, hfail, -⟩ | ⟨-, res, t, r, h, htool, haudit, -⟩
      · refine absurd ((unchanged_iff_failsClean E w ?_).mpr hclean l p) hne
        rw [hfail]
        simp
      · exact ⟨r, by rw [after_of_ok h, haudit], htool⟩
    · have hok : (acceptShown E w s).failure = none := by
        by_contra hfail
        exact hsome (hreturned.mpr hfail)
      rw [hseen .l2 p hp hok, hseen .l3 p hp hok]
      exact hsame hok p hcfg hp

end

/-- A node whose connection is lost at the `n`-th command of a run. -/
def World.failingFrom (n : Nat) (w : World) : World where
  exec k cmd := if k < n then w.exec k cmd else .error "Channel open failure".toList
  uuid := w.uuid
  now := w.now

/-- The connection is lost after the pass at L1: that level stays promoted, and
no record says so. -/
theorem accept_truth_not_all_or_nothing :
    ¬ AllOrNothing .sample (.failingFrom 2 (.ofFiles [.dir "/etc", .file "/etc/motd" "1.0" 'a']))
      SUPER_ROOT .init := by
  intro h
  have hrow := h.rejected (by decide +kernel) .l1 "host/etc/motd".toList
  exact absurd hrow (by decide +kernel)

end HomelabMcp.Integrity
