import HomelabMcp.Integrity.AcceptPolicy

/-!
# The integrity engine (integrityEngine.ts)

The engine's methods as programs over its state: the node store, the audit log
and the number of transport calls made. A transport failure ends a method where
it stands and keeps the state it had reached, as a thrown exception does.
-/

namespace HomelabMcp.Integrity

open SlashPath SortKey Text

/-- What the engine's methods act on. -/
structure EngineState where
  store : Store
  audit : List AuditRecord
  calls : Nat

/-- Before the first run: no rows, an empty log. -/
def EngineState.init : EngineState := ⟨.init, [], 0⟩

abbrev Engine := EStateM Str EngineState

/-- Transport calls inside a method. -/
def liftWire {α : Type} (x : Wire α) : Engine α := fun s =>
  match x s.calls with
  | .ok a k => .ok a { s with calls := k }
  | .error e k => .error e { s with calls := k }

def modifyStore (f : Store → Store) : Engine Unit := fun s =>
  .ok () { s with store := f s.store }

/-- The level argument of `verify` and `autoAccept`. -/
inductive VerifyLevel
  | only (level : Level)
  | smart
  deriving DecidableEq

def VerifyLevel.levels : VerifyLevel → List Level
  | .only l => [l]
  | .smart => LEVELS

inductive VerifyMode
  | seeded
  | compared
  deriving DecidableEq, Repr

inductive SeededReason
  | noBaseline
  | levelChanged
  deriving DecidableEq, Repr

/-- integrityEngine.ts:49. -/
structure VerifyDriftLeaf where
  path : Str
  nodePath : Str
  oldHash : Option Str
  newHash : Option Str
  explainedBy : Option Explainer
  l1 : Bool
  l2 : Bool
  l3 : Bool
  deriving DecidableEq

/-- integrityEngine.ts:76. -/
structure VerifyReport where
  level : VerifyLevel
  scope : Str
  rootHash : Option Str
  drift : List VerifyDriftLeaf
  policy : List PolicyOutcome
  mode : VerifyMode
  seededReason : Option SeededReason
  note : Option Str
  deriving DecidableEq

def VerifyReport.baselineSeeded (r : VerifyReport) : Bool :=
  decide (r.mode = .seeded)

/-- integrityEngine.ts:93. -/
def scopeLabel (scope : Str) : Str :=
  if scope = SUPER_ROOT then "whole forest".toList else scope

/-- integrityEngine.ts:103. -/
def seededReasonFor (emptyCount totalCount : Nat) : SeededReason :=
  if totalCount ≤ emptyCount then .noBaseline else .levelChanged

/-- integrityEngine.ts:108. -/
def seededNote (reason : SeededReason) (scope : Str) : Str :=
  match reason with
  | .levelChanged =>
    "Baseline re-seeded for ".toList ++ scopeLabel scope ++
      (" (tracking level/config changed); drift detection did NOT run for the new level" ++
        " and begins on the next run.").toList
  | .noBaseline =>
    "Baseline established for ".toList ++ scopeLabel scope ++
      "; drift detection begins on the next run.".toList

/-- What follows `pct/<digits>`, if the path has that form up to its end
(integrityEngine.ts:125). -/
def afterContainer (forestPath : Str) : Option Str :=
  let digits := forestPath.drop 4
  if (pctGroup ++ ['/']).isPrefixOf forestPath ∧ (digits.head?.map Char.isDigit).getD false ∧
      (digits.dropWhile Char.isDigit).all (fun c => !isLineTerminator c) then
    some (digits.dropWhile Char.isDigit)
  else none

/-- integrityEngine.ts:120. -/
def forestToNodePath (forestPath : Str) : Str :=
  if forestPath = hostPrefix ∨ (hostPrefix ++ ['/']).isPrefixOf forestPath then
    let rest := forestPath.drop hostPrefix.length
    if rest = [] then ['/'] else rest
  else
    match afterContainer forestPath with
    | some rest => if rest = [] then ['/'] else rest
    | none => '/' :: forestPath

section

variable (E : Env) (w : World)

def policyConfig : AcceptPolicyConfig :=
  ⟨E.cfg.maxUnexplainedL3, E.cfg.allowL2AutoAccept, E.cfg.sensitiveGlobs⟩

/-- One pass over the node, against the current store. -/
def freshNodes (level : Level) : Engine (List StoredNode) := fun s =>
  liftWire (computeForestNodes E w s.store level) s

/-- `replaceSubtree(tree, level, "/", nodes)`. -/
def storeForest (tree : TreeKind) (level : Level) (nodes : List StoredNode) : Engine Unit :=
  modifyStore fun st => st.replaceSubtree E.under tree level ['/'] nodes

/-- integrityEngine.ts:169. -/
def computeTree (level : Level) (tree : TreeKind) : Engine (Option Str × Nat) := do
  let nodes ← freshNodes E w level
  storeForest E tree level nodes
  pure (((nodes.find? fun n => n.path = SUPER_ROOT).map (·.hash)), nodes.length)

/-- integrityEngine.ts:176. -/
def baselineEmpty (store : Store) (level : Level) : Bool :=
  (store.allUnder E.under .baseline level ['/']).isEmpty

/-- The loop of integrityEngine.ts:190. -/
def seedLevels : List Level → Engine Unit
  | [] => pure ()
  | l :: ls => do
    let _ ← computeTree E w l .baseline
    seedLevels ls

/-- integrityEngine.ts:189. -/
def seedBaselines (level : VerifyLevel) (scope : Str) (emptyCount : Nat) : Engine VerifyReport := do
  seedLevels E w level.levels
  let s ← (get : Engine EngineState)
  let reason := seededReasonFor emptyCount level.levels.length
  pure {
    level := level
    scope := scope
    rootHash := level.levels.getLast?.bind fun l =>
      (s.store.get .baseline l SUPER_ROOT).map (·.hash)
    drift := []
    policy := []
    mode := .seeded
    seededReason := some reason
    note := some (seededNote reason scope) }

/-- Whether a diff entry is about a file leaf, or about a whole subtree that came
or went (integrityEngine.ts:216). -/
def isLeafDrift (b w : Partition) (d : DriftEntry) : Bool :=
  ((w.get d.path).map fun n => decide (n.childNames = none)).getD false ||
    ((b.get d.path).map fun n => decide (n.childNames = none)).getD false ||
    decide (d.kind = .added) || decide (d.kind = .removed)

/-- The entries of one level's diff, by path (integrityEngine.ts:210). -/
def levelDrift (b w : Partition) (scope : Str) : List DriftEntry :=
  KeyedList.upsertAll (·.path) ((treeDiff b w scope).filter (isLeafDrift b w)) []

/-- integrityEngine.ts:207. -/
def computeAndDiff (scope : Str) (level : Level) : Engine (List DriftEntry) := do
  let nodes ← freshNodes E w level
  storeForest E .working level nodes
  let s ← (get : Engine EngineState)
  pure (levelDrift (s.store.part .baseline level) (s.store.part .working level) scope)

/-- The diffs that a report is made of; a level that was not compared, or whose
diff was dropped, has none. -/
structure PerLevel where
  l1 : List DriftEntry
  l2 : List DriftEntry
  l3 : List DriftEntry

def PerLevel.ofLevel (level : Level) (entries : List DriftEntry) : PerLevel :=
  match level with
  | .l1 => ⟨entries, [], []⟩
  | .l2 => ⟨[], entries, []⟩
  | .l3 => ⟨[], [], entries⟩

def PerLevel.at (m : PerLevel) : Level → List DriftEntry
  | .l1 => m.l1
  | .l2 => m.l2
  | .l3 => m.l3

/-- The comparisons of one run (integrityEngine.ts:222). -/
def compareLevels (level : VerifyLevel) (scope : Str) : Engine PerLevel := do
  let l1 ← computeAndDiff E w scope .l1
  match level with
  | .smart =>
    if l1 = [] then pure ⟨[], [], []⟩
    else do
      let l2 ← computeAndDiff E w scope .l2
      let l3 ← computeAndDiff E w scope .l3
      pure ⟨l1, l2, l3⟩
  | .only .l1 => pure ⟨l1, [], []⟩
  | .only l => do
    let entries ← computeAndDiff E w scope l
    pure (.ofLevel l entries)

def driftAt (entries : List DriftEntry) (path : Str) : Option DriftEntry :=
  KeyedList.lookup (·.path) path entries

/-- The richest entry at a path (integrityEngine.ts:255). -/
def PerLevel.best (m : PerLevel) (path : Str) : Option DriftEntry :=
  ((driftAt m.l3 path).or (driftAt m.l2 path)).or (driftAt m.l1 path)

def driftLeaf (index : List (Str × Explainer)) (m : PerLevel) (path : Str) : VerifyDriftLeaf where
  path := path
  nodePath := forestToNodePath path
  oldHash := (m.best path).bind (·.baselineHash)
  newHash := (m.best path).bind (·.workingHash)
  explainedBy := classifyHash ((m.best path).bind (·.workingHash)) index
  l1 := (driftAt m.l1 path).isSome
  l2 := (driftAt m.l2 path).isSome
  l3 := (driftAt m.l3 path).isSome

/-- `[...paths].sort()` (integrityEngine.ts:251). -/
def driftPaths (m : PerLevel) : List Str :=
  sortOn codeUnits ((m.l1 ++ m.l2 ++ m.l3).map (·.path)).dedup

def toLeafDrift (d : VerifyDriftLeaf) : LeafDrift where
  path := d.path
  nodePath := d.nodePath
  explained := d.explainedBy.isSome
  explainedBy := d.explainedBy.map (·.auditId)
  l1 := d.l1
  l2 := d.l2
  l3 := d.l3

/-- integrityEngine.ts:241. -/
def assembleReport (s : EngineState) (level : VerifyLevel) (scope : Str) (m : PerLevel) :
    VerifyReport :=
  let drift := (driftPaths m).map (driftLeaf (buildExplainIndex s.audit) m)
  { level := level
    scope := scope
    rootHash := (s.store.get .working .l3 SUPER_ROOT).map (·.hash)
    drift := drift
    policy := applyAcceptPolicy (drift.map toLeafDrift) (policyConfig E)
    mode := .compared
    seededReason := none
    note := none }

/-- integrityEngine.ts:206. -/
def compareWithBaseline (level : VerifyLevel) (scope : Str) : Engine VerifyReport := do
  let m ← compareLevels E w level scope
  let s ← (get : Engine EngineState)
  modifyStore Store.clearWorking
  pure (assembleReport E s level scope m)

/-- integrityEngine.ts:184. -/
def verify (level : VerifyLevel) (scope : Str) : Engine VerifyReport := fun s =>
  let emptyLevels := level.levels.filter (baselineEmpty E s.store)
  if emptyLevels = [] then compareWithBaseline E w level scope s
  else seedBaselines E w level scope emptyLevels.length s

/-! ## Accept-truth -/

/-- `buildAuditRecord` (record.ts:114): a fresh id and the time, around the given
fields. The counter is the number of records so far. -/
def buildAuditRecord (n : Nat) (tool : AuditTool) (vmid : Option Nat)
    (path hashScope beforeHash afterHash : Option Str) : AuditRecord :=
  ⟨w.uuid n, w.now n, tool, vmid, path, hashScope, beforeHash, afterHash⟩

/-- The loop of integrityEngine.ts:293. -/
def promoteLevels (storeScope : Str) : List Level → Engine Unit
  | [] => pure ()
  | l :: ls => do
    let nodes ← freshNodes E w l
    storeForest E .working l nodes
    modifyStore fun st => st.promote E.under l storeScope
    promoteLevels storeScope ls

def storeScopeOf (scope : Str) : Str :=
  if scope = SUPER_ROOT then ['/'] else scope

structure AcceptResult where
  auditId : Str
  rootHash : Option Str
  levels : List Level

/-- The record and the result at the end of integrityEngine.ts:289. -/
def finishAccept (scope : Str) (beforeHash : Option Str) : Engine AcceptResult := fun s =>
  let store := s.store.clearWorking
  let rootHash := (store.get .baseline .l3 SUPER_ROOT).map (·.hash)
  let record := buildAuditRecord w s.audit.length .acceptTruth none none
    (some (storeScopeOf scope)) beforeHash rootHash
  .ok ⟨record.id, rootHash, LEVELS⟩ { s with store := store, audit := s.audit ++ [record] }

/-- integrityEngine.ts:289. -/
def acceptTruth (scope : Str) : Engine AcceptResult := do
  let s ← (get : Engine EngineState)
  promoteLevels E w (storeScopeOf scope) LEVELS
  finishAccept w scope ((s.store.get .baseline .l3 SUPER_ROOT).map (·.hash))

/-! ## Auto-accept -/

end

/-- The row that replaces an ancestor after a fold (integrityEngine.ts:368). -/
def refoldedRow (sha256 : Bytes → Bytes) (t : Partition) (node : StoredNode) : StoredNode :=
  let refs := (t.getChildren node.path).map childRef
  { node with
    hash := if refs = [] then node.hash else nodeHex sha256 refs
    childNames := some (sortedNames refs) }

/-- The loop of integrityEngine.ts:365: refold the row at `p`, then what lies
above it. -/
def refoldFrom (sha256 : Bytes → Bytes) : Nat → Partition → Option Str → Partition
  | 0, t, _ => t
  | _ + 1, t, none => t
  | fuel + 1, t, some p =>
    match t.get p with
    | none => t
    | some node =>
      refoldFrom sha256 fuel (t.upsertAll [refoldedRow sha256 t node]) node.parentPath

/-- integrityEngine.ts:363; every parent is shorter than its child. -/
def refoldPathToRoot (sha256 : Bytes → Bytes) (t : Partition) (leafPath : Str) : Partition :=
  refoldFrom sha256 (leafPath.length + 1) t ((t.get leafPath).bind (·.parentPath))

/-- One level of integrityEngine.ts:353. -/
def foldLeaf1 (sha256 : Bytes → Bytes) (working baseline : Partition) (path : Str) : Partition :=
  match working.get path with
  | none => baseline
  | some row => refoldPathToRoot sha256 (baseline.upsertAll [row]) path

section

variable (E : Env) (w : World)

/-- integrityEngine.ts:353. -/
def foldLeafIntoBaseline (path : Str) : List Level → Store → Store
  | [], st => st
  | l :: ls, st => foldLeafIntoBaseline path ls
      (st.setPart .baseline l
        (foldLeaf1 E.sha256 (st.part .working l) (st.part .baseline l) path))

/-- One fold and its audit record (integrityEngine.ts:335). -/
def foldOutcome (levels : List Level) (outcome : PolicyOutcome) (s : EngineState) : EngineState :=
  let store := foldLeafIntoBaseline E outcome.path levels s.store
  let nodePath := forestToNodePath outcome.path
  let record := buildAuditRecord w s.audit.length .acceptTruth none (some nodePath) (some nodePath)
    none ((store.get .baseline .l3 outcome.path).map (·.hash))
  { s with store := store, audit := s.audit ++ [record] }

/-- The loop of integrityEngine.ts:330, over the outcomes to fold. -/
def foldOutcomes (levels : List Level) (outcomes : List PolicyOutcome) (s : EngineState) :
    EngineState :=
  outcomes.foldl (fun s o => foldOutcome E w levels o s) s

/-- The loop of integrityEngine.ts:323. -/
def recompute : List Level → Engine Unit
  | [] => pure ()
  | l :: ls => do
    let nodes ← freshNodes E w l
    storeForest E .working l nodes
    recompute ls

structure AutoAcceptResult where
  folded : List PolicyOutcome
  flagged : List PolicyOutcome
  deriving DecidableEq

def foldedOutcomes (policy : List PolicyOutcome) : List PolicyOutcome :=
  policy.filter fun o => decide (o.decision = .fold)

def flaggedOutcomes (policy : List PolicyOutcome) : List PolicyOutcome :=
  policy.filter fun o => decide (o.decision ≠ .fold)

/-- The folding half of integrityEngine.ts:317, after its verify. -/
def applyReport (level : VerifyLevel) (report : VerifyReport) : Engine AutoAcceptResult := do
  recompute E w level.levels
  (fun s => .ok () (foldOutcomes E w level.levels (foldedOutcomes report.policy) s) : Engine Unit)
  modifyStore Store.clearWorking
  pure ⟨foldedOutcomes report.policy, flaggedOutcomes report.policy⟩

/-- integrityEngine.ts:317. -/
def autoAccept (level : VerifyLevel) (scope : Str) : Engine AutoAcceptResult := do
  let report ← verify E w level scope
  if report.baselineSeeded ∨ report.policy = [] then pure ⟨[], []⟩
  else applyReport E w level report

end

end HomelabMcp.Integrity
