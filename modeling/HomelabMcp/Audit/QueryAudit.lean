import HomelabMcp.Audit.Record
import HomelabMcp.Lib.KeyedList
import HomelabMcp.Lib.TextOrder

/-!
# Querying the audit log (queryAudit.ts)

`filterAuditRecords` scans the log; `queryAuditHandler` sums up what was found, by
whichever way, and returns a page of it. Free text is searched another way by each of
the two, and is not among the filters here.

- `summarizeAuditRecords_perm`: the summary does not depend on the order of the records.
-/

namespace HomelabMcp.Audit

open SlashPath Text TextOrder KeyedList SortKey

/-- queryAudit.ts:62; `tool` is any text. -/
structure AuditFilters where
  tool : Option Str := none
  vmid : Option Int := none
  pathContains : Option Str := none
  since : Option Str := none
  until_ : Option Str := none
  largeOnly : Option Bool := none
  hashScopeContains : Option Str := none
  unknownScopeOnly : Option Bool := none
  hashEquals : Option Str := none

def unknownScope : Str :=
  "unknown".toList

/-- The predicate of queryAudit.ts:79. -/
def passes (f : AuditFilters) (r : AuditRecord) : Bool :=
  (f.tool.all fun tool => r.tool.text == tool) &&
  (f.vmid.all fun vmid => r.vmid.map Int.ofNat == some vmid) &&
  (f.pathContains.all fun sub => includes (r.path.getD []) sub) &&
  (f.since.all fun since => !unitLt r.ts since) &&
  (f.until_.all fun until_ => !unitLt until_ r.ts) &&
  (f.largeOnly != some true || r.isLargeChange == some true) &&
  (f.hashScopeContains.all fun sub => includes (r.hashScope.getD []) sub) &&
  (f.unknownScopeOnly != some true || r.hashScope == some unknownScope) &&
  (f.hashEquals.all fun hash => r.beforeHash == some hash || r.afterHash == some hash)

def filterAuditRecords (records : List AuditRecord) (f : AuditFilters) : List AuditRecord :=
  records.filter (passes f)

/-! ## The summary -/

/-- The objects `byTool` and `byVmid` are lists of their members. -/
structure AuditSummary where
  total : Nat
  byTool : List (Str × Nat)
  byVmid : List (Str × Nat)
  firstTs : Option Str
  lastTs : Option Str
  deriving DecidableEq

/-- `counts[key]`. -/
def countOf (key : Str) (counts : List (Str × Nat)) : Option Nat :=
  (lookup Prod.fst key counts).map Prod.snd

/-- `counts[key] = (counts[key] ?? 0) + 1`. -/
def countUp (key : Str) (counts : List (Str × Nat)) : List (Str × Nat) :=
  upsert Prod.fst (key, (countOf key counts).getD 0 + 1) counts

/-- The earlier of two times. -/
def earlier (first : Option Str) (ts : Str) : Option Str :=
  match first with
  | none => some ts
  | some t => if unitLt ts t then some ts else some t

def later (last : Option Str) (ts : Str) : Option Str :=
  match last with
  | none => some ts
  | some t => if unitLt t ts then some ts else some t

def addRecord (s : AuditSummary) (r : AuditRecord) : AuditSummary where
  total := s.total + 1
  byTool := countUp r.tool.text s.byTool
  byVmid := match r.vmid with
    | some vmid => countUp (numeral vmid) s.byVmid
    | none => s.byVmid
  firstTs := earlier s.firstTs r.ts
  lastTs := later s.lastTs r.ts

/-- queryAudit.ts:95. -/
def summarizeAuditRecords (records : List AuditRecord) : AuditSummary :=
  records.foldl addRecord ⟨0, [], [], none, none⟩

/-- The same summary: an object has its members in any order. -/
structure AuditSummary.Same (s t : AuditSummary) : Prop where
  total : s.total = t.total
  byTool : ∀ tool, countOf tool s.byTool = countOf tool t.byTool
  byVmid : ∀ vmid, countOf vmid s.byVmid = countOf vmid t.byVmid
  firstTs : s.firstTs = t.firstTs
  lastTs : s.lastTs = t.lastTs

namespace AuditSummary.Same

variable {s t u : AuditSummary}

theorem refl (s : AuditSummary) : s.Same s :=
  ⟨rfl, fun _ => rfl, fun _ => rfl, rfl, rfl⟩

theorem trans (h : s.Same t) (h' : t.Same u) : s.Same u where
  total := h.total.trans h'.total
  byTool tool := (h.byTool tool).trans (h'.byTool tool)
  byVmid vmid := (h.byVmid vmid).trans (h'.byVmid vmid)
  firstTs := h.firstTs.trans h'.firstTs
  lastTs := h.lastTs.trans h'.lastTs

end AuditSummary.Same

theorem countOf_countUp (key k : Str) (counts : List (Str × Nat)) :
    countOf k (countUp key counts) =
      if key = k then some ((countOf key counts).getD 0 + 1) else countOf k counts := by
  unfold countUp
  rw [countOf, lookup_upsert]
  split
  · rfl
  · rfl

theorem countUp_congr {c c' : List (Str × Nat)} (h : ∀ k, countOf k c = countOf k c')
    (key k : Str) : countOf k (countUp key c) = countOf k (countUp key c') := by
  rw [countOf_countUp, countOf_countUp, h key, h k]

theorem countUp_comm (a b : Str) (c : List (Str × Nat)) (k : Str) :
    countOf k (countUp a (countUp b c)) = countOf k (countUp b (countUp a c)) := by
  by_cases hab : a = b
  · rw [hab]
  · simp only [countOf_countUp, if_neg hab, if_neg (Ne.symm hab)]
    by_cases ha : a = k
    · rw [if_pos ha, if_neg fun hb => hab (ha.trans hb.symm), if_pos ha]
    · rw [if_neg ha, if_neg ha]

theorem earlier_comm (first : Option Str) (a b : Str) :
    earlier (earlier first a) b = earlier (earlier first b) a := by
  rcases first with _ | t <;> grind [earlier, unitLt_trans, unitLt_asymm, unitLt_connex]

theorem later_comm (last : Option Str) (a b : Str) :
    later (later last a) b = later (later last b) a := by
  rcases last with _ | t <;> grind [later, unitLt_trans, unitLt_asymm, unitLt_connex]

theorem AuditSummary.Same.addRecord {s t : AuditSummary} (h : s.Same t) (r : AuditRecord) :
    (addRecord s r).Same (addRecord t r) where
  total := congrArg (· + 1) h.total
  byTool := countUp_congr h.byTool _
  byVmid := by
    unfold Audit.addRecord
    cases r.vmid with
    | none => exact h.byVmid
    | some vmid => exact countUp_congr h.byVmid _
  firstTs := congrArg (earlier · r.ts) h.firstTs
  lastTs := congrArg (later · r.ts) h.lastTs

theorem addRecord_comm (s : AuditSummary) (a b : AuditRecord) :
    (addRecord (addRecord s a) b).Same (addRecord (addRecord s b) a) where
  total := rfl
  byTool := countUp_comm _ _ _
  byVmid := by
    unfold addRecord
    cases a.vmid with
    | none => exact fun _ => rfl
    | some v =>
      cases b.vmid with
      | none => exact fun _ => rfl
      | some v' => exact countUp_comm _ _ _
  firstTs := earlier_comm _ _ _
  lastTs := later_comm _ _ _

theorem foldl_addRecord_perm {records records' : List AuditRecord} (h : records.Perm records')
    {s t : AuditSummary} (hst : s.Same t) :
    (records.foldl addRecord s).Same (records'.foldl addRecord t) := by
  induction h generalizing s t with
  | nil => exact hst
  | cons r _ ih => exact ih (hst.addRecord r)
  | swap a b l =>
    show (l.foldl addRecord (addRecord (addRecord s b) a)).Same
      (l.foldl addRecord (addRecord (addRecord t a) b))
    have hswap := (addRecord_comm s b a).trans ((hst.addRecord a).addRecord b)
    clear hst
    generalize addRecord (addRecord s b) a = s' at hswap ⊢
    generalize addRecord (addRecord t a) b = t' at hswap ⊢
    induction l generalizing s' t' with
    | nil => exact hswap
    | cons r l ih => exact ih _ _ (hswap.addRecord r)
  | trans _ _ ih ih' => exact (ih hst).trans (ih' (.refl t))

/-- The summary does not depend on the order of the records. -/
theorem summarizeAuditRecords_perm {records records' : List AuditRecord}
    (h : records.Perm records') :
    (summarizeAuditRecords records).Same (summarizeAuditRecords records') :=
  foldl_addRecord_perm h (.refl _)

theorem total_summarizeAuditRecords (records : List AuditRecord) :
    (summarizeAuditRecords records).total = records.length := by
  have hfold : ∀ (l : List AuditRecord) (s : AuditSummary),
      (l.foldl addRecord s).total = s.total + l.length := by
    intro l
    induction l with
    | nil => exact fun s => rfl
    | cons r l ih =>
      intro s
      rw [List.foldl_cons, ih, List.length_cons]
      show s.total + 1 + _ = _
      omega
  exact (hfold records _).trans (Nat.zero_add _)

/-! ## The handler -/

/-- A record as a page has it. Its command is in code units, because it may be cut inside a
pair. -/
structure PageRecord where
  record : AuditRecord
  cmd : Option (List Nat)

/-- The command of a record, which a page has in another form, and the rest of it. -/
def toPage (cut : List Nat → List Nat) (r : AuditRecord) : PageRecord where
  record := { r with cmd := none }
  cmd := r.cmd.map fun cmd => cut (codeUnits cmd)

/-- The head of a command and how many code units were dropped. -/
def cutCmd (max : Nat) (cmd : List Nat) : List Nat :=
  if cmd.length ≤ max then cmd
  else cmd.take max ++
    codeUnits ("…(+".toList ++ numeral (cmd.length - max) ++ " chars)".toList)

/-- queryAudit.ts:120. -/
def projectAuditCmd (records : List AuditRecord) (cmdMaxChars : Option Nat)
    (cmdFull : Option Bool) : List PageRecord :=
  match cmdMaxChars with
  | none => records.map (toPage id)
  | some max => if cmdFull = some true then records.map (toPage id)
    else records.map (toPage (cutCmd max))

/-- queryAudit.ts:9. -/
structure QueryAuditInput where
  filters : AuditFilters
  limit : Option Nat := none
  cmdMaxChars : Option Nat := none
  cmdFull : Option Bool := none

structure QueryAuditResult where
  summary : AuditSummary
  records : List PageRecord

/-- `cfg.tools`, as far as a query reads it. -/
structure QueryConfig where
  queryAuditDefaultLimit : Nat
  queryAuditMaxLimit : Nat

/-- What queryAudit.ts:160 makes of the records that were found, by the log or by the
index. `localeKey` is the sort key by which the platform's `localeCompare` compares. -/
def queryAuditHandler (localeKey : Str → List Nat) (cfg : QueryConfig) (input : QueryAuditInput)
    (filtered : List AuditRecord) : QueryAuditResult :=
  let limit := min (input.limit.getD cfg.queryAuditDefaultLimit) cfg.queryAuditMaxLimit
  let page := (sortDescOn (fun r => localeKey r.ts) filtered).take limit
  { summary := summarizeAuditRecords filtered
    records := projectAuditCmd page input.cmdMaxChars input.cmdFull }

end HomelabMcp.Audit
