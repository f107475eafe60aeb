import HomelabMcp.Integrity.Passes

/-!
# What a verification does to the baseline

Comparing leaves every baseline as it was. Seeding, which a smart run does as
soon as one of its levels has no rows, replaces the rows of all three, the ones
already there included.

- `after_seedBaselines`: which partitions a seeding run replaces.
- `verify_frame_iff`: when the baselines that had rows keep them.
-/

namespace HomelabMcp.Integrity

open SlashPath SortKey Text Effect

section

variable (E : Env) (w : World)

/-- The passes of a seeding run. -/
def seedShown (level : VerifyLevel) (s : EngineState) : Shown :=
  passes E w s.store level.levels s.calls

theorem after_seedBaselines (level : VerifyLevel) (scope : Str) (n : Nat) (s : EngineState) :
    after (seedBaselines E w level scope n) s =
      afterPasses (landSeed E) (seedShown E w level s) s := by
  have hseed : after (seedLevels E w level.levels) s =
      afterPasses (landSeed E) (seedShown E w level s) s := by
    rw [seedLevels_eq_eachPass]
    exact after_eachPass E w (landSeed_stays E) level.levels_nodup s
  rw [← hseed]
  unfold seedBaselines
  cases h : seedLevels E w level.levels s with
  | ok u t =>
    rw [after_bind_of_ok h, after_of_ok h]
    rfl
  | error e t => rw [after_bind_of_error h, after_of_error h]

/-- The baseline of a level after seeding: what its pass showed, if the run got
that far. -/
theorem seeded_part (level : VerifyLevel) (s : EngineState) (l : Level) :
    (afterPasses (landSeed E) (seedShown E w level s) s).store.part .baseline l =
      match KeyedList.lookup Prod.fst l (seedShown E w level s).rows with
      | some r => .ofNodes r.2
      | none => s.store.part .baseline l :=
  land_part (fun nodes _ => .ofNodes nodes) (landSeed_part E)
    (passes_nodup E w _ level.levels_nodup _) _ _

/-- Some level of the run has no baseline. -/
def Seeds (level : VerifyLevel) (st : Store) : Prop :=
  ∃ l ∈ level.levels, baselineEmpty E st l = true

instance (level : VerifyLevel) (st : Store) : Decidable (Seeds E level st) :=
  inferInstanceAs (Decidable (∃ l ∈ level.levels, _))

theorem verify_of_seeds {level : VerifyLevel} (scope : Str) {s : EngineState}
    (h : Seeds E level s.store) : ∃ n, verify E w level scope s =
      seedBaselines E w level scope n s := by
  obtain ⟨l, hl, hempty⟩ := h
  refine ⟨_, if_neg (List.ne_nil_of_mem (List.mem_filter.mpr ⟨hl, hempty⟩))⟩

theorem after_verify_of_seeds {level : VerifyLevel} (scope : Str) {s : EngineState}
    (h : Seeds E level s.store) : after (verify E w level scope) s =
      afterPasses (landSeed E) (seedShown E w level s) s := by
  obtain ⟨n, hrun⟩ := verify_of_seeds E w scope h
  rw [← after_seedBaselines E w level scope n s]
  unfold after
  rw [hrun]

theorem verify_of_not_seeds {level : VerifyLevel} {scope : Str} {s : EngineState}
    (h : ¬ Seeds E level s.store) :
    verify E w level scope s = compareWithBaseline E w level scope s :=
  if_pos (List.filter_eq_nil_iff.mpr fun l hl hempty => h ⟨l, hl, hempty⟩)

/-- A run with all its levels established is read-only. -/
theorem verify_keeps_of_not_seeds {level : VerifyLevel} (scope : Str) {s : EngineState}
    (h : ¬ Seeds E level s.store) : KeepsBaselines s (after (verify E w level scope) s) := by
  have hrun : after (verify E w level scope) s = after (compareWithBaseline E w level scope) s := by
    unfold after
    rw [verify_of_not_seeds E w h]
  rw [hrun]
  exact compareWithBaseline_keeps E w level scope s

/-- The baselines that had rows have the same rows after the call, so that
whatever a later verification compares with them, it reports the same. -/
structure VerifyFrame (level : VerifyLevel) (scope : Str) (s : EngineState) : Prop where
  rows : ∀ l, baselineEmpty E s.store l = false → ∀ p,
    (after (verify E w level scope) s).store.get .baseline l p = s.store.get .baseline l p
  reported : ∀ l, baselineEmpty E s.store l = false → ∀ (fresh : Partition) (scope' : Str),
    treeDiff ((after (verify E w level scope) s).store.part .baseline l) fresh scope' =
      treeDiff (s.store.part .baseline l) fresh scope'

/-- Where a seeding run reaches a level that has rows, the node shows these rows. -/
def ReseedHarmless (level : VerifyLevel) (s : EngineState) : Prop :=
  Seeds E level s.store → ∀ r ∈ (seedShown E w level s).rows,
    baselineEmpty E s.store r.1 = false →
      ∀ p, (Partition.ofNodes r.2).get p = s.store.get .baseline r.1 p

theorem verify_frame_iff (level : VerifyLevel) (scope : Str) (s : EngineState) :
    VerifyFrame E w level scope s ↔ ReseedHarmless E w level s := by
  by_cases hseeds : Seeds E level s.store
  · have hafter := after_verify_of_seeds E w scope hseeds
    have hnd : ((seedShown E w level s).rows.map Prod.fst).Nodup :=
      passes_nodup E w s.store level.levels_nodup s.calls
    constructor
    · intro h _ r hr hne p
      have hrow := h.rows r.1 hne p
      rw [hafter, Store.get, seeded_part, KeyedList.lookup_self hnd hr] at hrow
      exact hrow
    · intro h
      have hrows : ∀ l, baselineEmpty E s.store l = false → ∀ p,
          (after (verify E w level scope) s).store.get .baseline l p =
            s.store.get .baseline l p := by
        intro l hne p
        rw [hafter, Store.get, seeded_part]
        cases hlook : KeyedList.lookup Prod.fst l (seedShown E w level s).rows with
        | none => rfl
        | some r =>
          have hl : r.1 = l := KeyedList.key_of_lookup hlook
          subst hl
          exact h hseeds r (KeyedList.mem_of_lookup hlook) hne p
      exact ⟨hrows, fun l hne fresh scope' => treeDiff_congr (hrows l hne) fresh scope'⟩
  · have hkeep := verify_keeps_of_not_seeds E w scope hseeds
    refine ⟨fun _ h => absurd h hseeds, fun _ => ⟨fun l _ p => ?_, fun l _ fresh scope' => ?_⟩⟩
    · rw [Store.get, hkeep.part]
      rfl
    · rw [hkeep.part]

end

/-- A file is edited after its L1 baseline was taken; the first smart run takes
the edited file into that baseline. -/
theorem verify_frame_broken :
    ¬ VerifyFrame .sample (.ofFiles [.dir "/etc", .file "/etc/motd" "2.0" 'b']) .smart SUPER_ROOT
      (after (verify .sample (.ofFiles [.dir "/etc", .file "/etc/motd" "1.0" 'a']) (.only .l1)
        SUPER_ROOT) .init) := by
  intro h
  have hrow := h.rows .l1 (by decide +kernel) "host/etc/motd".toList
  exact absurd hrow (by decide +kernel)

end HomelabMcp.Integrity
