import HomelabMcp.Integrity.Engine

/-!
# What the engine's loops do

Seeding, accept-truth and the recomputation before a fold all loop over the
levels: one pass over the node, then a change of the store at that level. The
pass depends on the store only through the baseline of its own level, so what a
loop sees is fixed before it starts: `passes`.

- `eachPass_eq`: a loop stores what its passes show, up to the first that fails.
- `land_part`: level by level, that is one update of one partition.
- `verify_cases`, `compareLevels_ok`: what a verification compared.
-/

namespace HomelabMcp.Integrity

open SlashPath SortKey Text Effect

/-- A partition with exactly the given rows; of rows with one path the last
stays. -/
def Partition.ofNodes (nodes : List StoredNode) : Partition :=
  Partition.empty.upsertAll nodes

theorem Partition.ofNodes_rows {nodes : List StoredNode} (h : (nodes.map (·.path)).Nodup) :
    (Partition.ofNodes nodes).rows = nodes :=
  KeyedList.upsertAll_of_nodup (by simpa [Partition.empty] using h)

theorem Partition.replaceSubtree_whole {under : Str → Str → Bool} (h : ScopeLaws under)
    (t : Partition) (nodes : List StoredNode) :
    t.replaceSubtree under ['/'] nodes = .ofNodes nodes := by
  have hempty : t.deleteUnder under ['/'] = .empty := by
    simp [Partition.deleteUnder, Partition.empty, h.whole]
  rw [Partition.replaceSubtree, hempty, Partition.ofNodes]

/-- The hash of the file at a path. -/
def fileHashAt (t : Partition) (p : Str) : Option Str :=
  (t.get p).bind fun n => if n.isDir then none else some n.hash

theorem fileHashAt_congr {t t' : Partition} {p : Str} (h : t.get p = t'.get p) :
    fileHashAt t p = fileHashAt t' p := by
  unfold fileHashAt
  rw [h]

theorem fileHashAt_eq_some {t : Partition} {p hash : Str} : fileHashAt t p = some hash ↔
    ∃ n, t.get p = some n ∧ n.isDir = false ∧ n.hash = hash := by
  unfold fileHashAt
  rw [Option.bind_eq_some_iff]
  refine exists_congr fun n => and_congr_right fun _ => ?_
  cases n.isDir <;> simp

theorem Env.laws (E : Env) : ScopeLaws E.under :=
  E.impl.laws

section

variable (E : Env) (w : World)

/-- A pass sees the store only as the baseline of its level. -/
theorem computeForestNodes_congr {st st' : Store} {l : Level}
    (h : st.part .baseline l = st'.part .baseline l) :
    computeForestNodes E w st l = computeForestNodes E w st' l := by
  unfold computeForestNodes Store.allUnder
  rw [h]

/-- What a series of passes over the node showed. -/
structure Shown where
  rows : List (Level × List StoredNode)
  calls : Nat
  failure : Option Str

def Shown.cons (l : Level) (nodes : List StoredNode) (rest : Shown) : Shown :=
  { rest with rows := (l, nodes) :: rest.rows }

/-- One pass for each level, up to the first that fails. -/
def passes (st : Store) : List Level → Nat → Shown
  | [], k => ⟨[], k, none⟩
  | l :: ls, k =>
    match computeForestNodes E w st l k with
    | .ok nodes k' => (passes st ls k').cons l nodes
    | .error e k' => ⟨[], k', some e⟩

theorem passes_of_ok {st : Store} {l : Level} {k k' : Nat} {nodes : List StoredNode}
    (h : computeForestNodes E w st l k = .ok nodes k') (ls : List Level) :
    passes E w st (l :: ls) k = (passes E w st ls k').cons l nodes := by
  rw [passes, h]

theorem passes_of_error {st : Store} {l : Level} {k k' : Nat} {e : Str}
    (h : computeForestNodes E w st l k = .error e k') (ls : List Level) :
    passes E w st (l :: ls) k = ⟨[], k', some e⟩ := by
  rw [passes, h]

theorem passes_congr {st st' : Store} {ls : List Level}
    (h : ∀ l ∈ ls, st.part .baseline l = st'.part .baseline l) (k : Nat) :
    passes E w st ls k = passes E w st' ls k := by
  induction ls generalizing k with
  | nil => rfl
  | cons l ls ih =>
    have hl := computeForestNodes_congr E w (h l List.mem_cons_self)
    cases hpass : computeForestNodes E w st' l k with
    | ok nodes k' =>
      rw [passes_of_ok E w hpass, passes_of_ok E w (hl ▸ hpass),
        ih fun l' hl' => h l' (List.mem_cons_of_mem l hl')]
    | error e k' => rw [passes_of_error E w hpass, passes_of_error E w (hl ▸ hpass)]

/-- The passes are at the first levels of the loop, at all of them when none
fails. -/
theorem passes_levels (st : Store) (ls : List Level) (k : Nat) :
    (passes E w st ls k).rows.map Prod.fst <+: ls ∧
      ((passes E w st ls k).failure = none → (passes E w st ls k).rows.map Prod.fst = ls) := by
  induction ls generalizing k with
  | nil => exact ⟨List.prefix_rfl, fun _ => rfl⟩
  | cons l ls ih =>
    cases hpass : computeForestNodes E w st l k with
    | ok nodes k' =>
      rw [passes_of_ok E w hpass]
      exact ⟨List.cons_prefix_cons.mpr ⟨rfl, (ih k').1⟩, fun h => congrArg (l :: ·) ((ih k').2 h)⟩
    | error e k' =>
      rw [passes_of_error E w hpass]
      exact ⟨List.nil_prefix, fun h => by cases h⟩

theorem passes_nodup (st : Store) {ls : List Level} (hnd : ls.Nodup) (k : Nat) :
    ((passes E w st ls k).rows.map Prod.fst).Nodup :=
  hnd.sublist (passes_levels E w st ls k).1.sublist

/-- Each pass that succeeded was a pass over the node, at some point of the run. -/
theorem mem_passes {st : Store} {ls : List Level} {k : Nat} {l : Level} {nodes : List StoredNode}
    (h : (l, nodes) ∈ (passes E w st ls k).rows) :
    l ∈ ls ∧ ∃ j j', computeForestNodes E w st l j = .ok nodes j' := by
  induction ls generalizing k with
  | nil => cases h
  | cons l' ls ih =>
    cases hpass : computeForestNodes E w st l' k with
    | ok nodes' k' =>
      rw [passes_of_ok E w hpass] at h
      rcases List.mem_cons.mp h with h | h
      · obtain ⟨rfl, rfl⟩ := Prod.mk.inj h
        exact ⟨List.mem_cons_self, k, k', hpass⟩
      · obtain ⟨hl, j, j', hj⟩ := ih h
        exact ⟨List.mem_cons_of_mem l' hl, j, j', hj⟩
    | error e k' =>
      rw [passes_of_error E w hpass] at h
      cases h

/-! ## The loops -/

/-- Nothing but working rows and the call counter differ. -/
structure KeepsBaselines (s s' : EngineState) : Prop where
  part : ∀ l, s'.store.part .baseline l = s.store.part .baseline l
  audit : s'.audit = s.audit

theorem KeepsBaselines.refl (s : EngineState) : KeepsBaselines s s :=
  ⟨fun _ => rfl, rfl⟩

theorem KeepsBaselines.trans {s t r : EngineState} (h : KeepsBaselines s t)
    (h' : KeepsBaselines t r) : KeepsBaselines s r :=
  ⟨fun l => (h'.part l).trans (h.part l), h'.audit.trans h.audit⟩

/-- A pass for each level, each followed by a change of the store. -/
def eachPass (land : Level → List StoredNode → Store → Store) : List Level → Engine Unit
  | [] => pure ()
  | l :: ls => do
    let nodes ← freshNodes E w l
    modifyStore (land l nodes)
    eachPass land ls

def landAll (land : Level → List StoredNode → Store → Store) (rows : List (Level × List StoredNode))
    (st : Store) : Store :=
  rows.foldl (fun st r => land r.1 r.2 st) st

/-- A change at one level keeps the baselines of the others. -/
def StaysAt (land : Level → List StoredNode → Store → Store) : Prop :=
  ∀ l nodes st l', l' ≠ l → (land l nodes st).part .baseline l' = st.part .baseline l'

theorem freshNodes_ok {l : Level} {s : EngineState} {nodes : List StoredNode} {k : Nat}
    (h : computeForestNodes E w s.store l s.calls = .ok nodes k) :
    freshNodes E w l s = .ok nodes { s with calls := k } := by
  rw [freshNodes, liftWire, h]

theorem freshNodes_error {l : Level} {s : EngineState} {e : Str} {k : Nat}
    (h : computeForestNodes E w s.store l s.calls = .error e k) :
    freshNodes E w l s = .error e { s with calls := k } := by
  rw [freshNodes, liftWire, h]

theorem freshNodes_keeps (l : Level) : Keeps KeepsBaselines (freshNodes E w l) := by
  intro s
  cases h : computeForestNodes E w s.store l s.calls with
  | ok nodes k =>
    rw [after_of_ok (freshNodes_ok E w h)]
    exact ⟨fun _ => rfl, rfl⟩
  | error e k =>
    rw [after_of_error (freshNodes_error E w h)]
    exact ⟨fun _ => rfl, rfl⟩

theorem modifyStore_eq (f : Store → Store) (s : EngineState) :
    modifyStore f s = .ok () { s with store := f s.store } := rfl

/-- The state after a loop whose passes showed `shown`. -/
def afterPasses (land : Level → List StoredNode → Store → Store) (shown : Shown)
    (s : EngineState) : EngineState :=
  { s with store := landAll land shown.rows s.store, calls := shown.calls }

/-- A loop stores what its passes show, and throws with the first that fails. -/
theorem eachPass_eq {land : Level → List StoredNode → Store → Store} (hland : StaysAt land)
    {ls : List Level} (hnd : ls.Nodup) (s : EngineState) :
    eachPass E w land ls s =
      match (passes E w s.store ls s.calls).failure with
      | none => .ok () (afterPasses land (passes E w s.store ls s.calls) s)
      | some e => .error e (afterPasses land (passes E w s.store ls s.calls) s) := by
  induction ls generalizing s with
  | nil => rfl
  | cons l ls ih =>
    rw [List.nodup_cons] at hnd
    rw [eachPass]
    cases hpass : computeForestNodes E w s.store l s.calls with
    | ok nodes k =>
      -- the later passes do not see what this one stored
      have hrest : passes E w (land l nodes s.store) ls k = passes E w s.store ls k :=
        passes_congr E w (fun l' hl' => hland l nodes s.store l' fun h => hnd.1 (h ▸ hl')) k
      rw [bind_of_ok (freshNodes_ok E w hpass), bind_of_ok (modifyStore_eq _ _), ih hnd.2,
        passes_of_ok E w hpass]
      simp only [hrest]
      rfl
    | error e k => rw [bind_of_error (freshNodes_error E w hpass), passes_of_error E w hpass]; rfl

theorem after_eachPass {land : Level → List StoredNode → Store → Store} (hland : StaysAt land)
    {ls : List Level} (hnd : ls.Nodup) (s : EngineState) :
    after (eachPass E w land ls) s = afterPasses land (passes E w s.store ls s.calls) s := by
  unfold after
  rw [eachPass_eq E w hland hnd]
  cases (passes E w s.store ls s.calls).failure <;> rfl

/-- Level by level, a loop makes one update of one partition. -/
theorem land_part {tree : TreeKind} {land : Level → List StoredNode → Store → Store}
    (update : List StoredNode → Partition → Partition)
    (hland : ∀ l nodes st l', (land l nodes st).part tree l' =
      if l' = l then update nodes (st.part tree l) else st.part tree l')
    {rows : List (Level × List StoredNode)} (hnd : (rows.map Prod.fst).Nodup) (st : Store)
    (l : Level) : (landAll land rows st).part tree l =
      match KeyedList.lookup Prod.fst l rows with
      | some r => update r.2 (st.part tree l)
      | none => st.part tree l := by
  induction rows generalizing st with
  | nil => rfl
  | cons r rows ih =>
    rw [List.map_cons, List.nodup_cons] at hnd
    show (landAll land rows (land r.1 r.2 st)).part tree l = _
    rw [ih hnd.2, hland, KeyedList.lookup_cons]
    by_cases h : r.1 = l
    · have hnone : KeyedList.lookup Prod.fst l rows = none :=
        KeyedList.lookup_eq_none_iff.mpr fun q hq hql =>
          hnd.1 (h.trans hql.symm ▸ List.mem_map_of_mem hq)
      rw [hnone, if_pos h]
      simp [h]
    · rw [if_neg h, if_neg (Ne.symm h)]

/-! ### Seeding -/

def landSeed (l : Level) (nodes : List StoredNode) (st : Store) : Store :=
  st.replaceSubtree E.under .baseline l ['/'] nodes

theorem seedLevels_eq_eachPass (ls : List Level) :
    seedLevels E w ls = eachPass E w (landSeed E) ls := by
  induction ls with
  | nil => rfl
  | cons l ls ih =>
    funext s
    rw [seedLevels, eachPass, ← ih]
    unfold computeTree
    cases hpass : computeForestNodes E w s.store l s.calls with
    | ok nodes k =>
      rw [bind_of_ok (freshNodes_ok E w hpass)]
      exact bind_of_ok (bind_of_ok (freshNodes_ok E w hpass))
    | error e k =>
      rw [bind_of_error (freshNodes_error E w hpass)]
      exact bind_of_error (bind_of_error (freshNodes_error E w hpass))

theorem landSeed_part (l : Level) (nodes : List StoredNode) (st : Store) (l' : Level) :
    (landSeed E l nodes st).part .baseline l' =
      if l' = l then .ofNodes nodes else st.part .baseline l' := by
  rw [landSeed, Store.replaceSubtree, Store.part_setPart, Partition.replaceSubtree_whole E.laws]
  simp

theorem landSeed_stays : StaysAt (landSeed E) := fun l nodes st l' h => by
  rw [landSeed_part, if_neg h]

/-! ### Recomputing the working tree -/

def landWorking (l : Level) (nodes : List StoredNode) (st : Store) : Store :=
  st.replaceSubtree E.under .working l ['/'] nodes

theorem recompute_eq_eachPass (ls : List Level) :
    recompute E w ls = eachPass E w (landWorking E) ls := by
  induction ls with
  | nil => rfl
  | cons l ls ih => rw [recompute, eachPass, ← ih]; rfl

theorem landWorking_part (l : Level) (nodes : List StoredNode) (st : Store) (l' : Level) :
    (landWorking E l nodes st).part .working l' =
      if l' = l then .ofNodes nodes else st.part .working l' := by
  rw [landWorking, Store.replaceSubtree, Store.part_setPart, Partition.replaceSubtree_whole E.laws]
  simp

theorem landWorking_baseline (l : Level) (nodes : List StoredNode) (st : Store) (l' : Level) :
    (landWorking E l nodes st).part .baseline l' = st.part .baseline l' := by
  rw [landWorking, Store.replaceSubtree, Store.part_setPart]
  simp

/-- Recomputing the working tree touches no baseline. -/
theorem recompute_keeps (ls : List Level) : Keeps KeepsBaselines (recompute E w ls) := by
  have hbind : ∀ {α β : Type} {x : Engine α} {f : α → Engine β}, Keeps KeepsBaselines x →
      (∀ a, Keeps KeepsBaselines (f a)) → Keeps KeepsBaselines (x >>= f) :=
    Keeps.bind fun _ _ _ => KeepsBaselines.trans
  induction ls with
  | nil => exact Keeps.pure KeepsBaselines.refl ()
  | cons l ls ih =>
    exact hbind (freshNodes_keeps E w l) fun nodes =>
      hbind (fun s => ⟨landWorking_baseline E l nodes s.store, rfl⟩) fun _ => ih

theorem landWorking_stays : StaysAt (landWorking E) :=
  fun l nodes st l' _ => landWorking_baseline E l nodes st l'

/-! ### Promoting -/

def landPromoted (scope : Str) (l : Level) (nodes : List StoredNode) (st : Store) : Store :=
  (st.replaceSubtree E.under .working l ['/'] nodes).promote E.under l scope

/-- What promoting a pass makes of a baseline. -/
def promoted (scope : Str) (nodes : List StoredNode) (b : Partition) : Partition :=
  b.replaceSubtree E.under scope
    ((Partition.ofNodes nodes).rows.filter fun n => E.under n.path scope)

theorem get_promoted (scope : Str) (nodes : List StoredNode) (b : Partition) (p : Str) :
    (promoted E scope nodes b).get p =
      if E.under p scope then (Partition.ofNodes nodes).get p else b.get p :=
  Partition.get_replaceSubtree (Partition.ofNodes nodes).nodup

theorem promoteLevels_eq_eachPass (scope : Str) (ls : List Level) :
    promoteLevels E w scope ls = eachPass E w (landPromoted E scope) ls := by
  induction ls with
  | nil => rfl
  | cons l ls ih => rw [promoteLevels, eachPass, ← ih]; rfl

theorem landPromoted_part (scope : Str) (l : Level) (nodes : List StoredNode) (st : Store)
    (l' : Level) : (landPromoted E scope l nodes st).part .baseline l' =
      if l' = l then promoted E scope nodes (st.part .baseline l) else st.part .baseline l' := by
  rw [landPromoted, Store.promote, Store.replaceSubtree, Store.part_setPart, Store.part_setPart,
    Store.part_setPart, Partition.replaceSubtree_whole E.laws]
  simp [promoted]

theorem landPromoted_stays (scope : Str) : StaysAt (landPromoted E scope) :=
  fun l nodes st l' h => by rw [landPromoted_part, if_neg h]

end

/-! ## What a verification compares -/

/-- The levels whose forest a verification computes: a single level is preceded
by a pass at L1, whose diff is dropped. -/
def VerifyLevel.passLevels : VerifyLevel → List Level
  | .only .l1 => [.l1]
  | .only l => [.l1, l]
  | .smart => LEVELS

theorem VerifyLevel.levels_nodup (level : VerifyLevel) : level.levels.Nodup := by
  cases level with
  | only l => exact List.nodup_singleton l
  | smart => decide

/-- The rows a series of passes showed at a level. -/
def Shown.at (shown : Shown) (l : Level) : Partition :=
  match KeyedList.lookup Prod.fst l shown.rows with
  | some r => .ofNodes r.2
  | none => .empty

@[simp] theorem Shown.at_cons (l l' : Level) (nodes : List StoredNode) (rest : Shown) :
    (Shown.cons l nodes rest).at l' = if l = l' then .ofNodes nodes else rest.at l' := by
  unfold Shown.at Shown.cons
  rw [KeyedList.lookup_cons]
  by_cases h : l = l' <;> simp [h]

/-- The drift between the baseline and what the passes showed at a level. -/
def driftSeen (st : Store) (scope : Str) (shown : Shown) (l : Level) : List DriftEntry :=
  levelDrift (st.part .baseline l) (shown.at l) scope

/-- Whether the comparison stops after L1. -/
def Gated (level : VerifyLevel) (st : Store) (scope : Str) (shown : Shown) : Prop :=
  level = .smart ∧ driftSeen st scope shown .l1 = []

section

variable (E : Env) (w : World)

/-- What the passes of a verification show. -/
def verifyShown (level : VerifyLevel) (s : EngineState) : Shown :=
  passes E w s.store level.passLevels s.calls

theorem verifyShown_only {l : Level} (hl : l ≠ .l1) (s : EngineState) :
    verifyShown E w (.only l) s = passes E w s.store [.l1, l] s.calls := by
  cases l with
  | l1 => exact absurd rfl hl
  | l2 | l3 => rfl

theorem computeAndDiff_ok {st : Store} {scope : Str} {l : Level} {s : EngineState}
    {nodes : List StoredNode} {k : Nat}
    (hst : s.store.part .baseline l = st.part .baseline l)
    (h : computeForestNodes E w st l s.calls = .ok nodes k) :
    computeAndDiff E w scope l s =
      .ok (levelDrift (st.part .baseline l) (.ofNodes nodes) scope)
        { s with store := landWorking E l nodes s.store, calls := k } := by
  have hl := computeForestNodes_congr E w hst
  unfold computeAndDiff
  rw [bind_of_ok (freshNodes_ok E w (hl ▸ h))]
  show EStateM.Result.ok (levelDrift _ _ scope) _ = _
  congr 2
  exact (landWorking_part E l nodes s.store l).trans (if_pos rfl)

theorem computeAndDiff_error {st : Store} {scope : Str} {l : Level} {s : EngineState} {e : Str}
    {k : Nat} (hst : s.store.part .baseline l = st.part .baseline l)
    (h : computeForestNodes E w st l s.calls = .error e k) :
    computeAndDiff E w scope l s = .error e { s with calls := k } := by
  have hl := computeForestNodes_congr E w hst
  unfold computeAndDiff
  exact bind_of_error (freshNodes_error E w (hl ▸ h))

theorem computeAndDiff_eq_ok (st : Store) {scope : Str} {l : Level} {s t : EngineState}
    {d : List DriftEntry} (h : computeAndDiff E w scope l s = .ok d t)
    (hst : s.store.part .baseline l = st.part .baseline l) :
    ∃ nodes k, computeForestNodes E w st l s.calls = .ok nodes k ∧
      d = levelDrift (st.part .baseline l) (.ofNodes nodes) scope ∧
      t = { s with store := landWorking E l nodes s.store, calls := k } := by
  cases hpass : computeForestNodes E w st l s.calls with
  | ok nodes k =>
    rw [computeAndDiff_ok E w hst hpass] at h
    injection h with hd ht
    exact ⟨nodes, k, rfl, hd.symm, ht.symm⟩
  | error e k =>
    rw [computeAndDiff_error E w hst hpass] at h
    cases h

theorem computeAndDiff_keeps (scope : Str) (l : Level) :
    Keeps KeepsBaselines (computeAndDiff E w scope l) := by
  intro s
  cases h : computeForestNodes E w s.store l s.calls with
  | ok nodes k =>
    rw [after_of_ok (computeAndDiff_ok E w rfl h)]
    exact ⟨landWorking_baseline E l nodes s.store, rfl⟩
  | error e k =>
    rw [after_of_error (computeAndDiff_error E w rfl h)]
    exact ⟨fun _ => rfl, rfl⟩

theorem compareLevels_keeps (level : VerifyLevel) (scope : Str) :
    Keeps KeepsBaselines (compareLevels E w level scope) := by
  have hpure : ∀ m, Keeps KeepsBaselines (pure m : Engine PerLevel) :=
    Keeps.pure KeepsBaselines.refl
  have hbind : ∀ {α β : Type} {x : Engine α} {f : α → Engine β}, Keeps KeepsBaselines x →
      (∀ a, Keeps KeepsBaselines (f a)) → Keeps KeepsBaselines (x >>= f) :=
    Keeps.bind fun _ _ _ => KeepsBaselines.trans
  have hdiff := computeAndDiff_keeps E w scope
  refine hbind (hdiff .l1) fun d => ?_
  cases level with
  | only l =>
    cases l with
    | l1 => exact hpure _
    | l2 => exact hbind (hdiff .l2) fun _ => hpure _
    | l3 => exact hbind (hdiff .l3) fun _ => hpure _
  | smart =>
    dsimp only
    split
    · exact hpure _
    · exact hbind (hdiff .l2) fun _ => hbind (hdiff .l3) fun _ => hpure _

theorem compareWithBaseline_keeps (level : VerifyLevel) (scope : Str) :
    Keeps KeepsBaselines (compareWithBaseline E w level scope) := by
  refine Keeps.bind (fun _ _ _ => KeepsBaselines.trans) (compareLevels_keeps E w level scope)
    fun m s => ?_
  exact ⟨fun l => Store.part_clearWorking_baseline s.store l, rfl⟩

/-- The drift a comparison finds is the drift its passes showed, at the levels
asked for; a smart comparison without drift at L1 stops there. -/
theorem compareLevels_ok {level : VerifyLevel} {scope : Str} {s s' : EngineState} {m : PerLevel}
    (h : compareLevels E w level scope s = .ok m s') :
    (Gated level s.store scope (verifyShown E w level s) → m = ⟨[], [], []⟩) ∧
      (¬ Gated level s.store scope (verifyShown E w level s) →
        (verifyShown E w level s).failure = none ∧
          s' = afterPasses (landWorking E) (verifyShown E w level s) s ∧
          ∀ l, m.at l = if l ∈ level.levels then
            driftSeen s.store scope (verifyShown E w level s) l else []) := by
  have hkeep (l : Level) (nodes : List StoredNode) (st : Store) (l' : Level) :=
    landWorking_baseline E l nodes st l'
  unfold compareLevels at h
  obtain ⟨d₁, t₁, h₁, h⟩ := bind_eq_ok h
  obtain ⟨nodes₁, k₁, hpass₁, rfl, rfl⟩ := computeAndDiff_eq_ok E w s.store h₁ rfl
  cases level with
  | only l =>
    refine ⟨fun hg => absurd hg.1 (by simp), fun _ => ?_⟩
    cases l with
    | l1 =>
      obtain ⟨rfl, rfl⟩ := pure_eq_ok h
      have hshown : verifyShown E w (.only .l1) s = Shown.cons .l1 nodes₁ ⟨[], k₁, none⟩ :=
        passes_of_ok E w hpass₁ []
      rw [hshown]
      refine ⟨rfl, rfl, fun l => ?_⟩
      cases l <;> simp [PerLevel.at, VerifyLevel.levels, driftSeen]
    | l2 | l3 =>
      obtain ⟨d₂, t₂, h₂, h⟩ := bind_eq_ok h
      obtain ⟨nodes₂, k₂, hpass₂, rfl, rfl⟩ := computeAndDiff_eq_ok E w s.store h₂ (hkeep _ _ _ _)
      obtain ⟨rfl, rfl⟩ := pure_eq_ok h
      rw [verifyShown_only E w (by decide), passes_of_ok E w hpass₁, passes_of_ok E w hpass₂]
      refine ⟨rfl, rfl, fun l => ?_⟩
      cases l <;> simp [PerLevel.at, PerLevel.ofLevel, VerifyLevel.levels, driftSeen]
  | smart =>
    have hfirst : (verifyShown E w .smart s).at .l1 = .ofNodes nodes₁ := by
      rw [verifyShown, VerifyLevel.passLevels, LEVELS, passes_of_ok E w hpass₁, Shown.at_cons,
        if_pos rfl]
    dsimp only at h
    split at h
    · rename_i hclean
      obtain ⟨rfl, rfl⟩ := pure_eq_ok h
      refine ⟨fun _ => rfl, fun hg => absurd ⟨rfl, ?_⟩ hg⟩
      rw [driftSeen, hfirst]
      exact hclean
    · rename_i hdirty
      refine ⟨fun hg => absurd ?_ hdirty, fun _ => ?_⟩
      · have := hg.2
        rwa [driftSeen, hfirst] at this
      obtain ⟨d₂, t₂, h₂, h⟩ := bind_eq_ok h
      obtain ⟨nodes₂, k₂, hpass₂, rfl, rfl⟩ := computeAndDiff_eq_ok E w s.store h₂ (hkeep _ _ _ _)
      obtain ⟨d₃, t₃, h₃, h⟩ := bind_eq_ok h
      obtain ⟨nodes₃, k₃, hpass₃, rfl, rfl⟩ :=
        computeAndDiff_eq_ok E w s.store h₃ ((hkeep _ _ _ _).trans (hkeep _ _ _ _))
      obtain ⟨rfl, rfl⟩ := pure_eq_ok h
      have hshown : verifyShown E w .smart s =
          (((⟨[], k₃, none⟩ : Shown).cons .l3 nodes₃).cons .l2 nodes₂).cons .l1 nodes₁ := by
        rw [verifyShown, VerifyLevel.passLevels, LEVELS, passes_of_ok E w hpass₁,
          passes_of_ok E w hpass₂, passes_of_ok E w hpass₃]
        rfl
      rw [hshown]
      refine ⟨rfl, rfl, fun l => ?_⟩
      cases l <;> simp [PerLevel.at, VerifyLevel.levels, LEVELS, driftSeen]

end

end HomelabMcp.Integrity
