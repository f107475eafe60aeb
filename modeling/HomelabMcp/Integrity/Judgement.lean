import HomelabMcp.Integrity.Fold
import HomelabMcp.Integrity.Report

/-!
# What a verification judges, on the trees

A run's verdict on a path is a matter of the baselines, of the forests that its
passes show, and of the log. On the way down from the scope the two trees of a
level part at some paths; the policy folds such a path unless no record explains
the hash that the node shows there and it is sensitive, or the trees of L2 part
there too, or the budget is spent.

- `driftAt_isSome_iff`: a level has an entry where its trees part.
- `heldBack_iff`: which paths are held back.
- `flagged_iff_held`, `folded_iff_folds`: the outcomes of a run.
-/

namespace HomelabMcp.Integrity

open SlashPath SortKey Text

/-! ## Where two trees part -/

section

variable (b n : Partition)

/-- Both trees go on below a path: they have rows there, with different hashes, and one
is a directory. -/
def GoesOn (p : Str) : Prop :=
  ∃ bn nn, b.get p = some bn ∧ n.get p = some nn ∧ bn.hash ≠ nn.hash ∧
    (bn.isDir = true ∨ nn.isDir = true)

/-- At this path only one tree has a row, or their rows differ: in the hashes of two
leaves, or in the hash and the state of a leaf and something else. -/
inductive PartsHere (p : Str) : Prop
  | gone {bn : StoredNode} : b.get p = some bn → n.get p = none → PartsHere p
  | came {nn : StoredNode} : b.get p = none → n.get p = some nn → PartsHere p
  | leaves {bn nn : StoredNode} : b.get p = some bn → n.get p = some nn → bn.hash ≠ nn.hash →
      bn.isDir = false → nn.isDir = false → PartsHere p
  | states {bn nn : StoredNode} : b.get p = some bn → n.get p = some nn → bn.hash ≠ nn.hash →
      bn.state ≠ nn.state → (bn.isDir = false ∨ nn.isDir = false) → PartsHere p

/-- On the way down from the scope, two trees part at this path. -/
structure Parts (scope p : Str) : Prop where
  inScope : Below scope p
  above : ∀ r, Below scope r → Below r p → r ≠ p → GoesOn b n r
  here : PartsHere b n p

end

section

variable {b n : Partition} {scope p : Str}

theorem PartsHere.present (h : PartsHere b n p) : b.get p ≠ none ∨ n.get p ≠ none := by
  cases h with
  | gone hb _ => exact Or.inl (by rw [hb]; simp)
  | came _ hn => exact Or.inr (by rw [hn]; simp)
  | leaves hb _ _ _ _ => exact Or.inl (by rw [hb]; simp)
  | states hb _ _ _ _ => exact Or.inl (by rw [hb]; simp)

/-- The walk comes to a path when both trees go on at every path above it. -/
theorem visited_iff (hrow : b.get p ≠ none ∨ n.get p ≠ none) : Visited b n scope p ↔
    Below scope p ∧ ∀ r, Below scope r → Below r p → r ≠ p → GoesOn b n r := by
  constructor
  · intro h
    refine ⟨h.below_root, ?_⟩
    clear hrow
    induction h with
    | root => exact fun r hr hr' hne => absurd (hr'.antisymm hr) hne
    | @step q name hq hd hname ih =>
      intro r hr hrq hne
      have hpar : parentForestPath (join q name) = q := parent_join (diffNames_noSlash hname)
      have habove : Below r q := hpar ▸ hrq.eq_or_above.resolve_left hne
      by_cases hrq' : r = q
      · exact hrq' ▸ descends_iff.mp hd
      · exact ih r hr habove hrq'
  · rintro ⟨hbelow, habove⟩
    -- upwards: the parent is shorter, has a row, and both trees go on there
    induction hlen : p.length using Nat.strong_induction_on generalizing p with
    | _ k ih =>
      by_cases hroot : p = scope
      · exact hroot ▸ .root
      · have hscope : Below scope (parentForestPath p) :=
          hbelow.eq_or_above.resolve_left fun h => hroot h.symm
        have hne : p ≠ SUPER_ROOT := fun h => hroot (h ▸ (h ▸ hbelow).eq_nil.symm)
        have hlt : (parentForestPath p).length < p.length := length_parent_lt hne
        obtain ⟨c, hc⟩ : ∃ c : StoredNode, c.path = p ∧ (b.get p = some c ∨ n.get p = some c) := by
          rcases hrow with h | h
          · obtain ⟨c, hc⟩ := Option.ne_none_iff_exists'.mp h
            exact ⟨c, Partition.get_path hc, Or.inl hc⟩
          · obtain ⟨c, hc⟩ := Option.ne_none_iff_exists'.mp h
            exact ⟨c, Partition.get_path hc, Or.inr hc⟩
        obtain ⟨rfl, hc⟩ := hc
        have hpar : c.parentPath = some (parentForestPath c.path) :=
          StoredNode.parentPath_eq_some.mpr ⟨hne, rfl⟩
        have hself : parentForestPath c.path ≠ c.path := fun h => by
          rw [h] at hlt
          exact Nat.lt_irrefl _ hlt
        have hgoes := habove _ hscope c.below_parent hself
        have hvisited : Visited b n scope (parentForestPath c.path) := by
          obtain ⟨bn, -, hbn, -⟩ := hgoes
          refine ih _ (hlen ▸ hlt) (Or.inl (by rw [hbn]; simp)) hscope (fun r hr hr' _ => ?_) rfl
          refine habove r hr (hr'.trans c.below_parent) fun h => ?_
          exact absurd (h ▸ hr').length_le (Nat.not_le_of_lt hlt)
        exact hvisited.child (descends_iff.mpr hgoes) hc hpar

/-- The walk reports a path, and keeps it, when the trees part there. -/
theorem entryAt_kept_iff :
    (∃ e, entryAt b n p = some e ∧ isLeafDrift b n e = true) ↔ PartsHere b n p := by
  have hleaf (m : StoredNode) : m.isDir = false ↔ m.childNames = none := by
    unfold StoredNode.isDir
    rw [Option.isSome_eq_false_iff, Option.isNone_iff_eq_none]
  cases hb : b.get p with
  | none =>
    cases hn : n.get p with
    | none =>
      refine ⟨fun ⟨e, he, _⟩ => ?_, fun h => ?_⟩
      · exact absurd (entryAt_present he) (by rw [hb, hn]; simp)
      · exact absurd h.present (by rw [hb, hn]; simp)
    | some nn =>
      refine ⟨fun _ => .came hb hn, fun _ => ?_⟩
      unfold entryAt
      rw [hb, hn]
      exact ⟨_, rfl, by simp [isLeafDrift]⟩
  | some bn =>
    cases hn : n.get p with
    | none =>
      refine ⟨fun _ => .gone hb hn, fun _ => ?_⟩
      unfold entryAt
      rw [hb, hn]
      exact ⟨_, rfl, by simp [isLeafDrift]⟩
    | some nn =>
      unfold entryAt
      rw [hb, hn]
      dsimp only
      constructor
      · rintro ⟨e, he, hkept⟩
        -- of two rows, an entry stays for two leaves, or for a changed state with a leaf in it
        split at he
        · cases he
        · next hhash =>
          split at he
          · next hwhy =>
            cases he
            rcases hwhy with ⟨hbl, hnl⟩ | hstate
            · exact .leaves hb hn hhash ((hleaf bn).mpr hbl) ((hleaf nn).mpr hnl)
            · refine .states hb hn hhash hstate ?_
              rw [hleaf, hleaf]
              simp only [isLeafDrift, hb, hn, if_pos hstate, Option.map_some, Option.getD_some,
                Bool.or_eq_true, decide_eq_true_eq, reduceCtorEq, or_false] at hkept
              exact hkept.symm
          · cases he
      · intro h
        cases h with
        | gone _ h => rw [hn] at h; cases h
        | came h _ => rw [hb] at h; cases h
        | leaves hb' hn' hhash hbl hnl =>
          cases hb.symm.trans hb'
          cases hn.symm.trans hn'
          rw [hleaf] at hbl hnl
          exact ⟨_, (if_neg hhash).trans (if_pos (Or.inl ⟨hbl, hnl⟩)),
            by simp [isLeafDrift, hn, hnl]⟩
        | states hb' hn' hhash hstate hwhich =>
          cases hb.symm.trans hb'
          cases hn.symm.trans hn'
          rw [hleaf, hleaf] at hwhich
          refine ⟨_, (if_neg hhash).trans (if_pos (Or.inr hstate)), ?_⟩
          rcases hwhich with h | h <;> simp [isLeafDrift, hb, hn, h]

/-- A level has an entry where its trees part, with the hash that the node shows. -/
theorem driftAt_isSome_iff : (driftAt (levelDrift b n scope) p).isSome ↔ Parts b n scope p := by
  rw [Option.isSome_iff_exists]
  simp only [driftAt_levelDrift]
  constructor
  · rintro ⟨e, hv, he⟩
    have hhere := entryAt_kept_iff.mp ⟨e, he⟩
    obtain ⟨hscope, habove⟩ := (visited_iff hhere.present).mp hv
    exact ⟨hscope, habove, hhere⟩
  · rintro ⟨hscope, habove, hhere⟩
    obtain ⟨e, he⟩ := entryAt_kept_iff.mpr hhere
    exact ⟨e, (visited_iff hhere.present).mpr ⟨hscope, habove⟩, he⟩

theorem driftAt_workingHash {e : DriftEntry} (h : driftAt (levelDrift b n scope) p = some e) :
    e.workingHash = (n.get p).map (·.hash) := by
  obtain ⟨-, he, -⟩ := driftAt_levelDrift.mp h
  unfold entryAt at he
  cases hb : b.get p with
  | none =>
    cases hn : n.get p with
    | none =>
      rw [hb, hn] at he
      cases he
    | some nn =>
      rw [hb, hn] at he
      cases he
      rfl
  | some bn =>
    cases hn : n.get p with
    | none =>
      rw [hb, hn] at he
      cases he
      rfl
    | some nn =>
      rw [hb, hn] at he
      dsimp only at he
      split at he
      · cases he
      · split at he
        · cases he
          rfl
        · cases he

end

/-! ## What a verification compares -/

/-- A verification as far as its verdicts go: what was asked for, the baselines, the
forests that its passes show, and the log. -/
structure Sight where
  level : VerifyLevel
  scope : Str
  base : Level → Partition
  shown : Level → Partition
  log : List AuditRecord

/-- The levels whose hashes tell more. -/
def Level.richer : Level → List Level
  | .l1 => [.l2, .l3]
  | .l2 => [.l3]
  | .l3 => []

namespace Sight

variable (v : Sight) (cfg : Config)

/-- At a level asked for, the baseline and the node part at this path. -/
def PartsAt (l : Level) (p : Str) : Prop :=
  l ∈ v.level.levels ∧ Parts (v.base l) (v.shown l) v.scope p

/-- A smart comparison goes on after L1 only where the trees of L1 part at all. -/
def Open : Prop :=
  v.level = .smart → ∃ p, v.PartsAt .l1 p

/-- A path that the run gives a verdict on. -/
def Drifts (p : Str) : Prop :=
  v.Open ∧ ∃ l, v.PartsAt l p

/-- No record has the hash that the node shows at this path, on the richest level whose
trees part there. -/
def Unlogged (p : Str) : Prop :=
  ∀ l, v.PartsAt l p → (∀ l' ∈ l.richer, ¬ v.PartsAt l' p) →
    ∀ row, (v.shown l).get p = some row → row.hash ≠ [] → ∀ r ∈ v.log, r.afterHash ≠ some row.hash

def Sensitive (p : Str) : Prop :=
  isSensitivePath (forestToNodePath p) cfg.sensitiveGlobs = true

/-- Further content: the trees of L3 part at this path, those of L2 do not, and nothing
else decides. -/
structure Tail (p : Str) : Prop where
  content : v.PartsAt .l3 p
  notConfig : ¬ v.PartsAt .l2 p
  unlogged : v.Unlogged p
  notSensitive : ¬ Sensitive cfg p

/-- The budget for further content is spent by paths that come before this one in the
order of their code units. -/
def Spent (p : Str) : Prop :=
  ∃ ps : List Str, ps.Nodup ∧ cfg.maxUnexplainedL3 ≤ ps.length ∧
    ∀ q ∈ ps, v.Tail cfg q ∧ keyLe codeUnits q p ∧ q ≠ p

/-- A path that the run leaves to an explicit acceptance: no record explains it, and it
is sensitive, or the trees of L2 part there, or the budget is spent. -/
structure Held (p : Str) : Prop where
  unlogged : v.Unlogged p
  why : Sensitive cfg p ∨ (v.PartsAt .l2 p ∧ cfg.allowL2AutoAccept = false) ∨
    (¬ v.PartsAt .l2 p ∧ v.PartsAt .l3 p ∧ v.Spent cfg p)

/-- A path that the run folds into the baselines. -/
def Folds (p : Str) : Prop :=
  v.Drifts p ∧ ¬ v.Held cfg p

end Sight

section

variable (E : Env) (w : World)

/-- What a run of this level and scope is about to compare. -/
def sight (level : VerifyLevel) (scope : Str) (s : EngineState) : Sight where
  level := level
  scope := scope
  base := s.store.part .baseline
  shown := (verifyShown E w level s).at
  log := s.audit

variable {E w} {level : VerifyLevel} {scope : Str} {s : EngineState} {p : Str}

theorem levelDrift_ne_nil_iff {b n : Partition} :
    levelDrift b n scope ≠ [] ↔ ∃ p, Parts b n scope p := by
  simp only [← driftAt_isSome_iff, driftAt, KeyedList.lookup_isSome_iff]
  constructor
  · intro h
    obtain ⟨e, he⟩ := List.exists_mem_of_ne_nil _ h
    exact ⟨e.path, e, he, rfl⟩
  · rintro ⟨p, e, he, -⟩
    exact List.ne_nil_of_mem he

theorem not_gated_iff :
    ¬ Gated level s.store scope (verifyShown E w level s) ↔ (sight E w level scope s).Open := by
  unfold Gated
  rw [not_and]
  refine forall_congr' fun hsmart => ?_
  refine levelDrift_ne_nil_iff.trans (exists_congr fun p => ?_)
  refine (and_iff_right ?_).symm
  show Level.l1 ∈ level.levels
  rw [hsmart]
  decide

/-- The report has an entry at a level and a path when the run compares, and the trees
part there. -/
theorem has_iff {l : Level} : (runDiffs E w level scope s).has l p ↔
    (sight E w level scope s).Open ∧ (sight E w level scope s).PartsAt l p := by
  unfold PerLevel.has runDiffs
  rw [comparedDiffs_at]
  by_cases hopen : (sight E w level scope s).Open
  · by_cases hl : l ∈ level.levels
    · rw [if_pos ⟨hl, not_gated_iff.mpr hopen⟩]
      exact driftAt_isSome_iff.trans ⟨fun h => ⟨hopen, hl, h⟩, fun h => h.2.2⟩
    · rw [if_neg fun h => hl h.1]
      exact ⟨(fun h => by cases h), fun h => absurd h.2.1 hl⟩
  · rw [if_neg fun h => hopen (not_gated_iff.mp h.2)]
    exact ⟨(fun h => by cases h), fun h => absurd h.1 hopen⟩

/-! ## The log -/

/-- A hash is unexplained when no record has it. -/
theorem classifyHash_eq_none_iff {records : List AuditRecord} {h : Option Str} :
    classifyHash h (buildExplainIndex records) = none ↔
      ∀ hash, h = some hash → hash ≠ [] → ∀ r ∈ records, r.afterHash ≠ some hash := by
  constructor
  · rintro hnone hash rfl hne r hr hafter
    have hsome := classifyHash_isSome hr hafter hne
    rw [hnone] at hsome
    cases hsome
  · intro hall
    by_contra hne
    obtain ⟨x, hx⟩ := Option.ne_none_iff_exists'.mp hne
    obtain ⟨r, hr, hafter, hsome, -⟩ := classifyHash_some hx
    obtain ⟨hash, rfl⟩ := Option.ne_none_iff_exists'.mp hsome
    refine hall hash rfl ?_ r hr hafter
    rintro rfl
    unfold classifyHash at hx
    rw [Option.bind_some, Option.map_eq_some_iff] at hx
    obtain ⟨y, hy, -⟩ := hx
    have hkey : y.1 = [] := KeyedList.key_of_lookup hy
    rcases KeyedList.mem_upsertAll (KeyedList.mem_of_lookup hy) with hmem | hmem
    · obtain ⟨r', -, hentry⟩ := List.mem_filterMap.mp hmem
      unfold explainEntry at hentry
      split at hentry
      · split at hentry
        · cases hentry
        · next hne' =>
          cases hentry
          exact hne' hkey
      · cases hentry
    · cases hmem

/-- The entry that a report takes at a path is that of the richest level. -/
theorem best_cases (m : PerLevel) (p : Str) :
    (∃ l, m.has l p ∧ (∀ l' ∈ l.richer, ¬ m.has l' p) ∧ m.best p = driftAt (m.at l) p) ∨
      ((∀ l, ¬ m.has l p) ∧ m.best p = none) := by
  have hnone {l : Level} (h : ¬ m.has l p) : driftAt (m.at l) p = none :=
    Option.not_isSome_iff_eq_none.mp h
  unfold PerLevel.best
  -- L3 decides before L2, and L2 before L1
  by_cases h₃ : m.has .l3 p
  · obtain ⟨e, he⟩ := Option.isSome_iff_exists.mp h₃
    refine Or.inl ⟨.l3, h₃, (fun l' hl' => by cases hl'), ?_⟩
    rw [show driftAt m.l3 p = some e from he, Option.some_or, Option.some_or]
    exact he.symm
  · rw [show driftAt m.l3 p = none from hnone h₃, Option.none_or]
    by_cases h₂ : m.has .l2 p
    · obtain ⟨e, he⟩ := Option.isSome_iff_exists.mp h₂
      refine Or.inl ⟨.l2, h₂, fun l' hl' => List.mem_singleton.mp hl' ▸ h₃, ?_⟩
      rw [show driftAt m.l2 p = some e from he, Option.some_or]
      exact he.symm
    · rw [show driftAt m.l2 p = none from hnone h₂, Option.none_or]
      by_cases h₁ : m.has .l1 p
      · refine Or.inl ⟨.l1, h₁, fun l' hl' => ?_, rfl⟩
        rcases List.mem_cons.mp hl' with rfl | hl'
        · exact h₂
        · exact List.mem_singleton.mp hl' ▸ h₃
      · refine Or.inr ⟨fun l => ?_, hnone h₁⟩
        cases l <;> assumption

theorem richest_unique {q : Level → Prop} {l l' : Level} (h : q l) (h' : q l')
    (hr : ∀ k ∈ l.richer, ¬ q k) (hr' : ∀ k ∈ l'.richer, ¬ q k) : l = l' := by
  have hlt : l = l' ∨ l ∈ l'.richer ∨ l' ∈ l.richer := by
    cases l <;> cases l' <;> decide
  rcases hlt with heq | hmem | hmem
  · exact heq
  · exact absurd h (hr' l hmem)
  · exact absurd h' (hr l' hmem)

/-- A path of the report is unexplained when the log does not tell its hash. -/
theorem explainedBy_eq_none_iff (hopen : (sight E w level scope s).Open) :
    (driftLeaf (buildExplainIndex s.audit) (runDiffs E w level scope s) p).explainedBy = none ↔
      (sight E w level scope s).Unlogged p := by
  have hhas (l : Level) : (runDiffs E w level scope s).has l p ↔
      (sight E w level scope s).PartsAt l p := has_iff.trans (and_iff_right hopen)
  refine Iff.trans classifyHash_eq_none_iff ?_
  -- the report looks up the hash of one level, the log clause asks about the same one
  rcases best_cases (runDiffs E w level scope s) p with ⟨l, hl, hrich, hbest⟩ | ⟨hnone, hbest⟩
  · obtain ⟨e, he⟩ := Option.isSome_iff_exists.mp hl
    have hshown : ((runDiffs E w level scope s).best p).bind (·.workingHash) =
        (((sight E w level scope s).shown l).get p).map (·.hash) := by
      rw [hbest, he, Option.bind_some]
      have hlevel := ((hhas l).mp hl).1
      rw [runDiffs, comparedDiffs_at, if_pos ⟨hlevel, not_gated_iff.mpr hopen⟩] at he
      exact driftAt_workingHash he
    rw [hshown]
    have hrich' : ∀ l' ∈ l.richer, ¬ (sight E w level scope s).PartsAt l' p := fun l' hl' h =>
      hrich l' hl' ((hhas l').mpr h)
    constructor
    · intro h k hk hkrich row hrow hne
      obtain rfl := richest_unique (q := fun l => (sight E w level scope s).PartsAt l p)
        ((hhas l).mp hl) hk hrich' hkrich
      exact h row.hash (by rw [hrow, Option.map_some]) hne
    · intro h hash hhash hne
      obtain ⟨row, hrow, rfl⟩ := Option.map_eq_some_iff.mp hhash
      exact h l ((hhas l).mp hl) hrich' row hrow hne
  · rw [hbest, Option.bind_none]
    constructor
    · exact fun _ l hl => absurd ((hhas l).mpr hl) (hnone l)
    · exact fun _ hash h => by cases h

/-! ## The verdicts -/

/-- What a line of the report says of its path, on the trees. -/
structure LineReads (v : Sight) (cfg : Config) (d : VerifyDriftLeaf) : Prop where
  l2 : d.l2 = true ↔ v.PartsAt .l2 d.path
  l3 : d.l3 = true ↔ v.PartsAt .l3 d.path
  log : d.explainedBy = none ↔ v.Unlogged d.path
  sensitive : isSensitivePath d.nodePath cfg.sensitiveGlobs = true ↔ Sight.Sensitive cfg d.path

theorem line_reads (hopen : (sight E w level scope s).Open) {d : VerifyDriftLeaf}
    (hd : d ∈ driftOf s.audit (runDiffs E w level scope s)) :
    LineReads (sight E w level scope s) E.cfg d := by
  obtain ⟨hleaf, -⟩ := mem_driftOf.mp hd
  have hhas (l : Level) : (runDiffs E w level scope s).has l d.path ↔
      (sight E w level scope s).PartsAt l d.path := has_iff.trans (and_iff_right hopen)
  constructor
  · rw [hleaf]
    exact hhas .l2
  · rw [hleaf]
    exact hhas .l3
  · rw [hleaf]
    exact explainedBy_eq_none_iff hopen
  · rw [hleaf]
    exact Iff.rfl

/-- What asks for the budget is further content. -/
theorem asksBudget_iff (hopen : (sight E w level scope s).Open) {d : VerifyDriftLeaf}
    (hd : d ∈ driftOf s.audit (runDiffs E w level scope s)) :
    asksBudget (policyConfig E) (toLeafDrift d) = true ↔
      (sight E w level scope s).Tail E.cfg d.path := by
  obtain ⟨hl2, hl3, hlog, hsens⟩ := line_reads hopen hd
  have hasks : asksBudget (policyConfig E) (toLeafDrift d) = true ↔
      ((d.l3 = true ∧ ¬ d.l2 = true) ∧ d.explainedBy = none) ∧
        ¬ isSensitivePath d.nodePath E.cfg.sensitiveGlobs = true := by
    unfold asksBudget
    simp only [toLeafDrift, policyConfig, Bool.and_eq_true, Bool.not_eq_true',
      Option.isSome_eq_false_iff, Option.isNone_iff_eq_none, Bool.not_eq_true]
  rw [hasks, hl2, hl3, hlog, hsens]
  exact ⟨fun h => ⟨h.1.1.1, h.1.1.2, h.1.2, h.2⟩,
    fun h => ⟨⟨⟨h.content, h.notConfig⟩, h.unlogged⟩, h.notSensitive⟩⟩

theorem driftOf_paths (audit : List AuditRecord) (m : PerLevel) :
    (driftOf audit m).map (·.path) = driftPaths m := by
  unfold driftOf
  rw [List.map_map]
  exact List.map_id _

theorem judge_paths (E : Env) (audit : List AuditRecord) (m : PerLevel) :
    (judge E audit m).map (·.path) = driftPaths m := by
  rw [judge, applyAcceptPolicy_paths, List.map_map, ← driftOf_paths audit m]
  rfl

theorem driftPaths_topDown (m : PerLevel) : TopDown (driftPaths m) := by
  refine ((sortOn_pairwise codeUnits _).and (driftPaths_nodup m)).imp ?_
  intro p q ⟨hle, hne⟩ hb
  obtain ⟨rest, rfl⟩ := hb.isPrefix
  have hback : lexLe (codeUnits q) (codeUnits (q ++ rest)) = true := by
    rw [codeUnits_append]
    exact lexLe_append _ _
  exact hne (codeUnits_injective (lexLe_antisymm hle hback))

/-- The paths that come before one in a report are those with smaller code units. -/
theorem mem_before_iff {audit : List AuditRecord} {m : PerLevel}
    {before later : List VerifyDriftLeaf} {d : VerifyDriftLeaf}
    (hds : driftOf audit m = before ++ d :: later) {q : Str} :
    q ∈ before.map (·.path) ↔ q ∈ driftPaths m ∧ keyLe codeUnits q d.path ∧ q ≠ d.path := by
  have hpaths : driftPaths m = before.map (·.path) ++ d.path :: later.map (·.path) := by
    rw [← driftOf_paths audit, hds, List.map_append, List.map_cons]
  have hsorted : (driftPaths m).Pairwise (keyLe codeUnits) := sortOn_pairwise codeUnits _
  have hnodup := driftPaths_nodup m
  rw [hpaths] at hsorted hnodup ⊢
  -- the report is in order and has no path twice
  have hfirst := (List.pairwise_append.mp hsorted).2.2
  have hrest := (List.pairwise_cons.mp (List.pairwise_append.mp hsorted).2.1).1
  constructor
  · intro hq
    refine ⟨List.mem_append_left _ hq, hfirst q hq _ List.mem_cons_self, ?_⟩
    exact (List.nodup_append.mp hnodup).2.2 q hq _ List.mem_cons_self
  · rintro ⟨hq, hle, hne⟩
    rcases List.mem_append.mp hq with hq | hq
    · exact hq
    · have hlater := (List.mem_cons.mp hq).resolve_left hne
      exact absurd (codeUnits_injective (lexLe_antisymm hle (hrest q hlater))) hne

/-- The budget is spent before a path of the report. -/
theorem spent_iff (hopen : (sight E w level scope s).Open) {before later : List VerifyDriftLeaf}
    {d : VerifyDriftLeaf}
    (hds : driftOf s.audit (runDiffs E w level scope s) = before ++ d :: later) :
    E.cfg.maxUnexplainedL3 ≤ (before.map toLeafDrift).countP (asksBudget (policyConfig E)) ↔
      (sight E w level scope s).Spent E.cfg d.path := by
  have hmem : ∀ d' ∈ before, d' ∈ driftOf s.audit (runDiffs E w level scope s) := fun d' hd' =>
    hds ▸ List.mem_append_left _ hd'
  have hnodup : (before.map (·.path)).Nodup := by
    have hall := driftPaths_nodup (runDiffs E w level scope s)
    rw [← driftOf_paths s.audit, hds, List.map_append] at hall
    exact hall.of_append_left
  rw [List.countP_map, List.countP_eq_length_filter]
  -- the leaves that ask for the budget are the paths that spend it
  let asking := before.filter (asksBudget (policyConfig E) ∘ toLeafDrift)
  have hasking : ∀ q, q ∈ asking.map (·.path) ↔ q ∈ before.map (·.path) ∧
      (sight E w level scope s).Tail E.cfg q := by
    intro q
    constructor
    · intro hq
      obtain ⟨d', hd', rfl⟩ := List.mem_map.mp hq
      obtain ⟨hbefore, hasks⟩ := List.mem_filter.mp hd'
      exact ⟨List.mem_map_of_mem hbefore, (asksBudget_iff hopen (hmem d' hbefore)).mp hasks⟩
    · rintro ⟨hq, htail⟩
      obtain ⟨d', hd', rfl⟩ := List.mem_map.mp hq
      exact List.mem_map_of_mem
        (List.mem_filter.mpr ⟨hd', (asksBudget_iff hopen (hmem d' hd')).mpr htail⟩)
  have hlen : asking.length = (asking.map (·.path)).length := (List.length_map _).symm
  show E.cfg.maxUnexplainedL3 ≤ (asking.length : Int) ↔ _
  rw [hlen]
  constructor
  · intro hle
    refine ⟨asking.map (·.path), hnodup.sublist (List.filter_sublist.map _), hle, fun q hq => ?_⟩
    obtain ⟨hbefore, htail⟩ := (hasking q).mp hq
    obtain ⟨-, hkey, hne⟩ := (mem_before_iff hds).mp hbefore
    exact ⟨htail, hkey, hne⟩
  · rintro ⟨ps, hps, hle, hall⟩
    have hsub : ps ⊆ asking.map (·.path) := fun q hq => by
      obtain ⟨htail, hkey, hne⟩ := hall q hq
      refine (hasking q).mpr ⟨(mem_before_iff hds).mpr ⟨?_, hkey, hne⟩, htail⟩
      exact mem_driftPaths.mpr ⟨.l3, has_iff.mpr ⟨hopen, htail.content⟩⟩
    have hlength := (List.subperm_of_subset hps hsub).length_le
    omega

/-- The policy's fence, on the trees. -/
theorem heldBack_iff (hopen : (sight E w level scope s).Open) {before later : List VerifyDriftLeaf}
    {d : VerifyDriftLeaf}
    (hds : driftOf s.audit (runDiffs E w level scope s) = before ++ d :: later) :
    HeldBack E.cfg before d ↔ (sight E w level scope s).Held E.cfg d.path := by
  obtain ⟨hl2, hl3, hlog, hsens⟩ :=
    line_reads hopen (hds ▸ List.mem_append_right before List.mem_cons_self)
  unfold HeldBack
  rw [hlog, hsens, hl2, hl3, ← Bool.not_eq_true d.l2, hl2]
  exact (and_congr_right fun _ => or_congr_right (or_congr_right
    (and_congr_right fun _ => and_congr_right fun _ => spent_iff hopen hds))).trans
      ⟨fun h => ⟨h.1, h.2⟩, fun h => ⟨h.unlogged, h.why⟩⟩

/-- A path that drifts has its place in the report. -/
theorem drifts_iff : (sight E w level scope s).Drifts p ↔ ∃ before d later,
    driftOf s.audit (runDiffs E w level scope s) = before ++ d :: later ∧ d.path = p := by
  constructor
  · rintro ⟨hopen, l, hl⟩
    have hline : ∃ d ∈ driftOf s.audit (runDiffs E w level scope s), d.path = p :=
      exists_driftOf (has_iff.mpr ⟨hopen, hl⟩)
    obtain ⟨d, hd, hdp⟩ := hline
    obtain ⟨before, later, hds⟩ := List.append_of_mem hd
    exact ⟨before, d, later, hds, hdp⟩
  · rintro ⟨before, d, later, hds, rfl⟩
    obtain ⟨-, l, hl⟩ := mem_driftOf.mp (hds ▸ List.mem_append_right before List.mem_cons_self)
    obtain ⟨hopen, hparts⟩ := has_iff.mp hl
    exact ⟨hopen, l, hparts⟩

theorem flagged_iff_held : (∃ o ∈ flaggedOutcomes (runPolicy E w level scope s), o.path = p) ↔
    (sight E w level scope s).Drifts p ∧ (sight E w level scope s).Held E.cfg p := by
  refine flagged_iff.trans ⟨?_, ?_⟩
  · rintro ⟨before, d, later, hds, rfl, hheld⟩
    have hdrifts := drifts_iff.mpr ⟨before, d, later, hds, rfl⟩
    exact ⟨hdrifts, (heldBack_iff hdrifts.1 hds).mp hheld⟩
  · rintro ⟨hdrifts, hheld⟩
    obtain ⟨before, d, later, hds, rfl⟩ := drifts_iff.mp hdrifts
    exact ⟨before, d, later, hds, rfl, (heldBack_iff hdrifts.1 hds).mpr hheld⟩

theorem folded_iff_folds : (∃ o ∈ foldedOutcomes (runPolicy E w level scope s), o.path = p) ↔
    (sight E w level scope s).Folds E.cfg p := by
  refine folded_iff.trans ⟨?_, ?_⟩
  · rintro ⟨before, d, later, hds, rfl, hheld⟩
    have hdrifts := drifts_iff.mpr ⟨before, d, later, hds, rfl⟩
    exact ⟨hdrifts, mt (heldBack_iff hdrifts.1 hds).mpr hheld⟩
  · rintro ⟨hdrifts, hheld⟩
    obtain ⟨before, d, later, hds, rfl⟩ := drifts_iff.mp hdrifts
    exact ⟨before, d, later, hds, rfl, mt (heldBack_iff hdrifts.1 hds).mp hheld⟩

end

end HomelabMcp.Integrity
