import HomelabMcp.Integrity.Diff

/-!
# Classification and the auto-accept policy (classify.ts, acceptPolicy.ts)

A drifted path is explained when its new hash is the `afterHash` of some audit
record; the policy then decides for each path whether the baseline follows.
-/

namespace HomelabMcp.Integrity

open SlashPath SortKey Text

/-! ## Audit records -/

/-- The tools whose records the integrity subsystem reads or writes
(record.ts:5). -/
inductive AuditTool
  | writeFile
  | editFile
  | revertFile
  | pctWriteFile
  | pctEditFile
  | qmWriteFile
  | qmEditFile
  | dockerWriteFile
  | dockerEditFile
  | computeTree
  | acceptTruth
  deriving DecidableEq, Repr

/-- record.ts:45, the fields that the integrity subsystem reads or sets. -/
structure AuditRecord where
  id : Str
  ts : Str
  tool : AuditTool
  vmid : Option Nat
  path : Option Str
  hashScope : Option Str
  beforeHash : Option Str
  afterHash : Option Str
  deriving DecidableEq

/-! ## Classification -/

/-- classify.ts:11. -/
structure Explainer where
  auditId : Str
  tool : AuditTool
  ts : Str
  deriving DecidableEq

/-- The entry that one record contributes to the index: none without an
`afterHash`, or with an empty one. -/
def explainEntry (r : AuditRecord) : Option (Str × Explainer) :=
  match r.afterHash with
  | some h => if h = [] then none else some (h, ⟨r.id, r.tool, r.ts⟩)
  | none => none

/-- classify.ts:21; the newest record for a hash wins. -/
def buildExplainIndex (records : List AuditRecord) : List (Str × Explainer) :=
  KeyedList.upsertAll Prod.fst (records.filterMap explainEntry) []

/-- classify.ts:31: the explainer of a hash, if it has one. -/
def classifyHash (newHash : Option Str) (index : List (Str × Explainer)) : Option Explainer :=
  newHash.bind fun h => (KeyedList.lookup Prod.fst h index).map Prod.snd

/-! ## The policy -/

/-- acceptPolicy.ts:23. -/
structure AcceptPolicyConfig where
  maxUnexplainedL3 : Int
  allowL2AutoAccept : Bool
  sensitiveGlobs : List Str

/-- acceptPolicy.ts:32. -/
structure LeafDrift where
  path : Str
  nodePath : Str
  explained : Bool
  explainedBy : Option Str
  l1 : Bool
  l2 : Bool
  l3 : Bool
  deriving DecidableEq

inductive Decision
  | fold
  | flag
  deriving DecidableEq, Repr

inductive Reason
  | explained
  | sensitive
  | l2Config
  | l3Tail
  | l3OverThreshold
  | l1Only
  | noDrift
  deriving DecidableEq, Repr

/-- acceptPolicy.ts:55. -/
structure PolicyOutcome where
  path : Str
  decision : Decision
  reason : Reason
  explainedBy : Option Str
  deriving DecidableEq

/-- `g.replace(/\/+$/, "")`. -/
def dropTrailingSlashes (g : Str) : Str :=
  (g.reverse.dropWhile fun c => c == '/').reverse

/-- Whether one sensitive entry catches a node path (acceptPolicy.ts:64). -/
def sensitiveGlobMatches (nodePath g : Str) : Bool :=
  if g.contains '*' || g.contains '?' then globTest g nodePath
  else
    let base := dropTrailingSlashes g
    decide (nodePath = base) || (base ++ ['/']).isPrefixOf nodePath

/-- acceptPolicy.ts:63. -/
def isSensitivePath (nodePath : Str) (globs : List Str) : Bool :=
  globs.any (sensitiveGlobMatches nodePath)

/-- acceptPolicy.ts:91; the second component says whether the L3 budget was
asked, which takes one unit of it if there is one. -/
def decideLeaf (cfg : AcceptPolicyConfig) (l3Budget : Int) (d : LeafDrift) :
    PolicyOutcome × Bool :=
  if !d.l1 && !d.l2 && !d.l3 then (⟨d.path, .flag, .noDrift, none⟩, false)
  else if d.explained then (⟨d.path, .fold, .explained, d.explainedBy⟩, false)
  else if isSensitivePath d.nodePath cfg.sensitiveGlobs then
    (⟨d.path, .flag, .sensitive, none⟩, false)
  else if d.l2 then
    (⟨d.path, if cfg.allowL2AutoAccept then .fold else .flag, .l2Config, none⟩, false)
  else if d.l3 then
    if l3Budget > 0 then (⟨d.path, .fold, .l3Tail, none⟩, true)
    else (⟨d.path, .flag, .l3OverThreshold, none⟩, true)
  else (⟨d.path, .fold, .l1Only, none⟩, false)

/-- The loop of acceptPolicy.ts:85, with what is left of the budget. -/
def applyFrom (cfg : AcceptPolicyConfig) : Int → List LeafDrift → List PolicyOutcome
  | _, [] => []
  | budget, d :: ds =>
    let (outcome, asked) := decideLeaf cfg budget d
    outcome :: applyFrom cfg (if asked ∧ budget > 0 then budget - 1 else budget) ds

/-- acceptPolicy.ts:81. -/
def applyAcceptPolicy (drifts : List LeafDrift) (cfg : AcceptPolicyConfig) : List PolicyOutcome :=
  applyFrom cfg cfg.maxUnexplainedL3 drifts

/-! ## What the policy decides -/

theorem decideLeaf_path (cfg : AcceptPolicyConfig) (budget : Int) (d : LeafDrift) :
    (decideLeaf cfg budget d).1.path = d.path := by
  unfold decideLeaf
  repeat' split
  all_goals rfl

theorem applyFrom_paths (cfg : AcceptPolicyConfig) (budget : Int) (ds : List LeafDrift) :
    (applyFrom cfg budget ds).map (·.path) = ds.map (·.path) := by
  induction ds generalizing budget with
  | nil => rfl
  | cons d ds ih =>
    rw [applyFrom, List.map_cons, List.map_cons, ih]
    exact congrArg (· :: _) (decideLeaf_path cfg budget d)

theorem applyAcceptPolicy_paths (ds : List LeafDrift) (cfg : AcceptPolicyConfig) :
    (applyAcceptPolicy ds cfg).map (·.path) = ds.map (·.path) :=
  applyFrom_paths cfg _ ds

theorem decideLeaf_cases (cfg : AcceptPolicyConfig) (b : Int) (d : LeafDrift)
    (hd : d.l1 = true ∨ d.l2 = true ∨ d.l3 = true) :
    (decideLeaf cfg b d).1.decision = .flag ↔
      d.explained = false ∧ (isSensitivePath d.nodePath cfg.sensitiveGlobs = true ∨
        (d.l2 = true ∧ cfg.allowL2AutoAccept = false) ∨
        (d.l2 = false ∧ d.l3 = true ∧ b ≤ 0)) := by
  have hsome : (!d.l1 && !d.l2 && !d.l3) = false := by
    rcases hd with h | h | h <;> simp [h]
  unfold decideLeaf
  rw [hsome]
  simp only [Bool.false_eq_true, if_false]
  cases d.explained <;> cases isSensitivePath d.nodePath cfg.sensitiveGlobs <;>
    cases d.l2 <;> cases d.l3 <;> cases cfg.allowL2AutoAccept <;> simp <;>
    (by_cases h : b > 0 <;> simp [h]; omega)

/-- The reason l1-only means drift at L1 and at no other level. -/
theorem decideLeaf_l1Only {cfg : AcceptPolicyConfig} {b : Int} {d : LeafDrift}
    (h : (decideLeaf cfg b d).1.reason = .l1Only) :
    d.l1 = true ∧ d.l2 = false ∧ d.l3 = false := by
  revert h
  unfold decideLeaf
  cases d.explained <;> cases isSensitivePath d.nodePath cfg.sensitiveGlobs <;>
    cases d.l1 <;> cases d.l2 <;> cases d.l3 <;> simp
  all_goals
    split <;> simp

/-- A leaf that only the L3 budget can let through. -/
def asksBudget (cfg : AcceptPolicyConfig) (d : LeafDrift) : Bool :=
  d.l3 && !d.l2 && !d.explained && !isSensitivePath d.nodePath cfg.sensitiveGlobs

theorem decideLeaf_asked (cfg : AcceptPolicyConfig) (b : Int) (d : LeafDrift) :
    (decideLeaf cfg b d).2 = asksBudget cfg d := by
  unfold decideLeaf asksBudget
  cases d.explained <;> cases isSensitivePath d.nodePath cfg.sensitiveGlobs <;>
    cases d.l1 <;> cases d.l2 <;> cases d.l3 <;> simp
  all_goals
    by_cases h : b > 0 <;> simp [h]

/-- The budget left after some leaves. -/
def budgetLeft (cfg : AcceptPolicyConfig) : Int → List LeafDrift → Int
  | b, [] => b
  | b, d :: ds => budgetLeft cfg (if (decideLeaf cfg b d).2 ∧ b > 0 then b - 1 else b) ds

/-- There is budget left as long as fewer leaves asked for it than it allows. -/
theorem budgetLeft_pos (cfg : AcceptPolicyConfig) (b : Int) (ds : List LeafDrift) :
    0 < budgetLeft cfg b ds ↔ (ds.countP (asksBudget cfg) : Int) < b := by
  induction ds generalizing b with
  | nil => simp [budgetLeft]
  | cons d ds ih =>
    rw [budgetLeft, ih, decideLeaf_asked, List.countP_cons]
    cases asksBudget cfg d with
    | false => simp
    | true =>
      by_cases h : b > 0
      · simp only [h, and_self, if_true]
        omega
      · simp only [h, and_false, if_false, if_true]
        omega

theorem applyFrom_append (cfg : AcceptPolicyConfig) (b : Int) (ds es : List LeafDrift) :
    applyFrom cfg b (ds ++ es) = applyFrom cfg b ds ++ applyFrom cfg (budgetLeft cfg b ds) es := by
  induction ds generalizing b with
  | nil => rfl
  | cons d ds ih =>
    rw [List.cons_append, applyFrom, applyFrom, budgetLeft]
    exact congrArg (_ :: ·) (ih _)

/-- The policy as a whole: each leaf is decided for with the budget that the
leaves before it have left. -/
theorem mem_applyAcceptPolicy_iff {cfg : AcceptPolicyConfig} {ds : List LeafDrift}
    {o : PolicyOutcome} : o ∈ applyAcceptPolicy ds cfg ↔ ∃ pre d post, ds = pre ++ d :: post ∧
      o = (decideLeaf cfg (budgetLeft cfg cfg.maxUnexplainedL3 pre) d).1 := by
  unfold applyAcceptPolicy
  constructor
  · generalize cfg.maxUnexplainedL3 = b
    intro h
    induction ds generalizing b with
    | nil => cases h
    | cons d ds ih =>
      rw [applyFrom] at h
      rcases List.mem_cons.mp h with rfl | h
      · exact ⟨[], d, ds, rfl, rfl⟩
      · obtain ⟨pre, d', post, rfl, ho⟩ := ih _ h
        exact ⟨d :: pre, d', post, rfl, ho⟩
  · rintro ⟨pre, d, post, rfl, rfl⟩
    rw [applyFrom_append]
    exact List.mem_append_right _ List.mem_cons_self

/-- A leaf is flagged when it is unexplained and sensitive, configuration, or
over the budget. -/
theorem decideLeaf_flag (cfg : AcceptPolicyConfig) (pre : List LeafDrift) (d : LeafDrift)
    (hd : d.l1 = true ∨ d.l2 = true ∨ d.l3 = true) :
    (decideLeaf cfg (budgetLeft cfg cfg.maxUnexplainedL3 pre) d).1.decision = .flag ↔
      d.explained = false ∧ (isSensitivePath d.nodePath cfg.sensitiveGlobs = true ∨
        (d.l2 = true ∧ cfg.allowL2AutoAccept = false) ∨
        (d.l2 = false ∧ d.l3 = true ∧ cfg.maxUnexplainedL3 ≤ pre.countP (asksBudget cfg))) := by
  rw [decideLeaf_cases cfg _ d hd]
  have hpos := budgetLeft_pos cfg cfg.maxUnexplainedL3 pre
  have : budgetLeft cfg cfg.maxUnexplainedL3 pre ≤ 0 ↔
      cfg.maxUnexplainedL3 ≤ pre.countP (asksBudget cfg) := by omega
  rw [this]

/-- The index answers with a record of that hash. -/
theorem classifyHash_some {records : List AuditRecord} {h : Option Str} {x : Explainer}
    (hx : classifyHash h (buildExplainIndex records) = some x) :
    ∃ r ∈ records, r.afterHash = h ∧ h ≠ none ∧ x = ⟨r.id, r.tool, r.ts⟩ := by
  unfold classifyHash at hx
  obtain ⟨hash, rfl, hx⟩ := Option.bind_eq_some_iff.mp hx
  obtain ⟨⟨k, y⟩, hlook, rfl⟩ := Option.map_eq_some_iff.mp hx
  have hk : k = hash := KeyedList.key_of_lookup hlook
  subst hk
  rcases KeyedList.mem_upsertAll (KeyedList.mem_of_lookup hlook) with hmem | hmem
  · obtain ⟨r, hr, hentry⟩ := List.mem_filterMap.mp hmem
    unfold explainEntry at hentry
    split at hentry
    · rename_i hash' hafter
      split at hentry
      · cases hentry
      · obtain ⟨rfl, rfl⟩ := Prod.mk.inj (Option.some.inj hentry)
        exact ⟨r, hr, hafter, by simp, rfl⟩
    · cases hentry
  · cases hmem

/-- Every record with a hash makes that hash explained. -/
theorem classifyHash_isSome {records : List AuditRecord} {r : AuditRecord} (hr : r ∈ records)
    {h : Str} (hh : r.afterHash = some h) (hne : h ≠ []) :
    (classifyHash (some h) (buildExplainIndex records)).isSome := by
  unfold classifyHash buildExplainIndex
  rw [Option.bind_some, Option.isSome_map, KeyedList.lookup_isSome_iff]
  have hentry : (h, (⟨r.id, r.tool, r.ts⟩ : Explainer)) ∈ records.filterMap explainEntry :=
    List.mem_filterMap.mpr ⟨r, hr, by rw [explainEntry, hh]; exact if_neg hne⟩
  exact KeyedList.exists_mem_upsertAll hentry

end HomelabMcp.Integrity
