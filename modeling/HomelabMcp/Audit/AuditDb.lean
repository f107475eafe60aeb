import HomelabMcp.Audit.QueryAudit
import HomelabMcp.Lib.Sql

/-!
# The index over the audit log (auditDb.ts, auditProjection.ts)

One row a record, with a column for each filter and the record itself in `raw`. A
query selects rows by conditions that may come out NULL, and gives back their records.

- `selects_recordToColumns_iff`: a row is selected when its record passes the filters,
  and has the fields that are searched for the empty text.
- `queryAudit_parity_iff`: when the index answers a query as the log does.
-/

namespace HomelabMcp.Audit

open SlashPath Text TextOrder SortKey Sql

/-! ## Rows -/

/-- auditProjection.ts:36: what is stored of a diff. -/
structure DiffProjection where
  text : Option Str
  redacted : Bool
  redactionCount : Nat
  truncated : Bool

/-- auditProjection.ts:92; `none` is NULL. -/
structure AuditColumns where
  id : Str
  ts : Str
  tool : Str
  vmid : Option Int
  container : Option Str
  path : Option Str
  hash_scope : Option Str
  before_hash : Option Str
  after_hash : Option Str
  exit_code : Option Int
  is_large : Int
  is_heavy : Int
  confirm_gated : Int
  root_tier : Int
  history_committed : Option Int
  cmd : Option Str
  note : Option Str
  diff : Option Str
  diff_redacted : Option Int
  diff_redaction_count : Option Nat
  diff_truncated : Option Int
  /-- The whole record, as JSON. -/
  raw : AuditRecord
  deriving DecidableEq

def bool01 (v : Option Bool) : Int :=
  if v = some true then 1 else 0

/-- auditProjection.ts:135. -/
def recordToColumns (record : AuditRecord) (diff : DiffProjection) : AuditColumns where
  id := record.id
  ts := record.ts
  tool := record.tool.text
  vmid := record.vmid.map Int.ofNat
  container := record.container
  path := record.path
  hash_scope := record.hashScope
  before_hash := record.beforeHash
  after_hash := record.afterHash
  exit_code := record.exitCode.join
  is_large := bool01 record.isLargeChange
  is_heavy := bool01 record.isHeavy
  confirm_gated := bool01 record.confirmGated
  root_tier := bool01 record.rootTier
  history_committed := record.historyCommitted.map fun v => bool01 (some v)
  cmd := record.cmd
  note := record.note
  diff := diff.text
  diff_redacted := diff.text.map fun _ => bool01 (some diff.redacted)
  diff_redaction_count := diff.text.map fun _ => diff.redactionCount
  diff_truncated := diff.text.map fun _ => bool01 (some diff.truncated)
  raw := record

/-- The rows of `audit`, in the order of their `rowid`. -/
abbrev AuditDb := List AuditColumns

/-- `ON CONFLICT(id) DO NOTHING`. -/
def insertCols (db : AuditDb) (cols : AuditColumns) : AuditDb :=
  if db.any fun row => row.id == cols.id then db else db ++ [cols]

/-- A record with what is stored of its diff. -/
abbrev Projected := AuditRecord × DiffProjection

/-- The index of a log whose records were projected one after the other. -/
def project (log : List Projected) : AuditDb :=
  log.foldl (fun db r => insertCols db (recordToColumns r.1 r.2)) []

/-! ## Queries -/

/-- The condition of a filter, when it is given. -/
def given {α : Type} (filter : Option α) (condition : α → AuditColumns → Truth) :
    List (AuditColumns → Truth) :=
  (filter.map condition).toList

def switched (filter : Option Bool) (condition : AuditColumns → Truth) :
    List (AuditColumns → Truth) :=
  if filter = some true then [condition] else []

/-- The conditions that auditDb.ts:151 pushes. -/
def conditions (f : AuditFilters) : List (AuditColumns → Truth) :=
  List.flatten [
    given f.tool fun tool a => equals (some a.tool) (some tool),
    given f.vmid fun vmid a => equals a.vmid (some vmid),
    given f.pathContains fun sub a => positive (instr a.path (some sub)),
    given f.since fun since a => compare byteLe (some since) (some a.ts),
    given f.until_ fun until_ a => compare byteLe (some a.ts) (some until_),
    switched f.largeOnly fun a => equals (some a.is_large) (some 1),
    given f.hashScopeContains fun sub a => positive (instr a.hash_scope (some sub)),
    switched f.unknownScopeOnly fun a => equals a.hash_scope (some unknownScope),
    given f.hashEquals fun hash a =>
      (equals a.before_hash (some hash)).or (equals a.after_hash (some hash))]

/-- What `queryRecords` may answer: the records of the selected rows, latest first.
Rows of one time come in any order. -/
def QueryRecords (db : AuditDb) (f : AuditFilters) (answer : List AuditRecord) : Prop :=
  ∃ rows : List AuditColumns, rows.Perm (db.filter (selects (conditions f))) ∧
    (rows.Pairwise fun a b => byteLe b.ts a.ts = true) ∧ answer = rows.map fun a => a.raw

/-- The fields that are searched for the empty text. -/
def HasSearchedFields (f : AuditFilters) (r : AuditRecord) : Prop :=
  (f.pathContains = some [] → r.path ≠ none) ∧
    (f.hashScopeContains = some [] → r.hashScope ≠ none)

/-- NULL contains nothing; a field that is absent contains the empty text. -/
theorem instr_includes {field : Option Str} {sub : Str} :
    (positive (instr field (some sub))).holds = true ↔
      includes (field.getD []) sub = true ∧ (sub = [] → field ≠ none) := by
  rw [instr_pos_iff]
  unfold includes
  rw [decide_eq_true_iff]
  cases field with
  | none =>
    refine iff_of_false (fun ⟨_, h, _⟩ => nomatch h) ?_
    rintro ⟨hwithin, hfield⟩
    exact hfield (List.infix_nil.mp hwithin) rfl
  | some text => simp

theorem forall_given {α : Type} {filter : Option α} {condition : α → AuditColumns → Truth}
    {row : AuditColumns} :
    (∀ c ∈ given filter condition, (c row).holds = true) ↔
      (filter.all fun x => (condition x row).holds) = true := by
  cases filter with
  | none => simp [given]
  | some x => simp [given]

theorem forall_switched {filter : Option Bool} {condition : AuditColumns → Truth}
    {row : AuditColumns} :
    (∀ c ∈ switched filter condition, (c row).holds = true) ↔
      (filter = some true → (condition row).holds = true) := by
  unfold switched
  by_cases h : filter = some true <;> simp [h]

theorem all_instr {filter field : Option Str} :
    (filter.all fun sub => (positive (instr field (some sub))).holds) = true ↔
      (filter.all fun sub => includes (field.getD []) sub) = true ∧
        (filter = some [] → field ≠ none) := by
  cases filter with
  | none => simp
  | some sub => simpa using instr_includes

theorem bool01_eq_one {v : Option Bool} : bool01 v = 1 ↔ v = some true := by
  rcases v with _ | _ | _ <;> decide

/-- A row is selected when its record passes, and has the fields that are searched for
the empty text. -/
theorem selects_recordToColumns_iff {f : AuditFilters} {r : AuditRecord} {diff : DiffProjection}
    (hts : IsAscii r.ts) :
    selects (conditions f) (recordToColumns r diff) = true ↔
      passes f r = true ∧ HasSearchedFields f r := by
  have hsince : (fun since => (compare byteLe (some since) (some r.ts)).holds) =
      fun since => !unitLt r.ts since := by
    funext since
    rw [holds_compare_some, Option.any_some, ← (unitLe_eq_byteLe hts).1, unitLt, Bool.not_not]
  have huntil : (fun until_ => (compare byteLe (some r.ts) (some until_)).holds) =
      fun until_ => !unitLt until_ r.ts := by
    funext until_
    rw [holds_compare_some, Option.any_some, ← (unitLe_eq_byteLe hts).2, unitLt, Bool.not_not]
  rw [selects_iff]
  unfold conditions
  simp only [List.forall_mem_flatten, List.forall_mem_cons, List.not_mem_nil, false_implies,
    implies_true, and_true, forall_given, forall_switched]
  simp only [recordToColumns, all_instr, hsince, huntil, holds_equals_some, Truth.holds_or,
    decide_eq_true_iff, Option.some.injEq, bool01_eq_one]
  unfold passes HasSearchedFields
  simp only [Bool.and_eq_true, Bool.or_eq_true, bne_iff_ne, ne_eq, Bool.beq_eq_decide_eq,
    decide_eq_true_iff, imp_iff_not_or]
  constructor
  · rintro ⟨htool, hvmid, ⟨hpath, hasPath⟩, hsince, huntil, hlarge, ⟨hscope, hasScope⟩, hunknown,
      hhash⟩
    exact ⟨⟨⟨⟨⟨⟨⟨⟨⟨htool, hvmid⟩, hpath⟩, hsince⟩, huntil⟩, hlarge⟩, hscope⟩, hunknown⟩, hhash⟩,
      hasPath, hasScope⟩
  · rintro ⟨⟨⟨⟨⟨⟨⟨⟨⟨htool, hvmid⟩, hpath⟩, hsince⟩, huntil⟩, hlarge⟩, hscope⟩, hunknown⟩, hhash⟩,
      hasPath, hasScope⟩
    exact ⟨htool, hvmid, ⟨hpath, hasPath⟩, hsince, huntil, hlarge, ⟨hscope, hasScope⟩, hunknown,
      hhash⟩

/-! ## What the index has of a log -/

/-- The index answers for a record when no earlier one has its id, and it has the fields
that are searched for the empty text. -/
def Answered (f : AuditFilters) (records : List AuditRecord) : Prop :=
  (records.Pairwise fun e r => passes f r = true → e.id ≠ r.id) ∧
    ∀ r ∈ records, passes f r = true → HasSearchedFields f r

/-- The records that the index finds, in the order of their rows. -/
def found (f : AuditFilters) (log : List Projected) : List AuditRecord :=
  ((project log).filter (selects (conditions f))).map fun a => a.raw

theorem project_concat (log : List Projected) (r : Projected) :
    project (log ++ [r]) = insertCols (project log) (recordToColumns r.1 r.2) := by
  unfold project
  rw [List.foldl_append]
  rfl

/-- The index has a row for each id of the log. -/
theorem ids_project (log : List Projected) (id : Str) :
    id ∈ (project log).map (fun a => a.id) ↔ id ∈ log.map fun r => r.1.id := by
  induction log using List.reverseRecOn with
  | nil => exact Iff.rfl
  | append_singleton log r ih =>
    rw [project_concat, List.map_append, List.mem_append, ← ih]
    unfold insertCols
    by_cases hid : (project log).any fun row => row.id == (recordToColumns r.1 r.2).id
    · rw [if_pos hid]
      refine ⟨Or.inl, fun h => h.elim (fun h => h) fun h => ?_⟩
      obtain rfl := List.mem_singleton.mp h
      obtain ⟨row, hrow, heq⟩ := List.any_eq_true.mp hid
      exact List.mem_map.mpr ⟨row, hrow, beq_iff_eq.mp heq⟩
    · rw [if_neg hid, List.map_append, List.mem_append]
      rfl

/-- What the next record adds to what the index finds. -/
theorem found_concat (f : AuditFilters) (log : List Projected) (r : Projected)
    (hts : IsAscii r.1.ts) :
    (∀ e ∈ log, e.1.id ≠ r.1.id) ∧ passes f r.1 = true ∧ HasSearchedFields f r.1 ∧
        found f (log ++ [r]) = found f log ++ [r.1] ∨
      ¬ ((∀ e ∈ log, e.1.id ≠ r.1.id) ∧ passes f r.1 = true ∧ HasSearchedFields f r.1) ∧
        found f (log ++ [r]) = found f log := by
  have hids : ((project log).any fun row => row.id == (recordToColumns r.1 r.2).id) = true ↔
      ¬ ∀ e ∈ log, e.1.id ≠ r.1.id := by
    have hmem := ids_project log r.1.id
    simp only [List.mem_map] at hmem
    rw [List.any_eq_true]
    simp only [beq_iff_eq]
    push Not
    exact hmem
  unfold found
  rw [project_concat]
  unfold insertCols
  by_cases hid : ((project log).any fun row => row.id == (recordToColumns r.1 r.2).id) = true
  · rw [if_pos hid]
    exact Or.inr ⟨fun h => hids.mp hid h.1, rfl⟩
  · rw [if_neg hid, List.filter_append, List.map_append]
    have hnew : ∀ e ∈ log, e.1.id ≠ r.1.id := not_not.mp fun h => hid (hids.mpr h)
    by_cases hsel : selects (conditions f) (recordToColumns r.1 r.2) = true
    · obtain ⟨hpasses, hfields⟩ := (selects_recordToColumns_iff hts).mp hsel
      refine Or.inl ⟨hnew, hpasses, hfields, ?_⟩
      rw [List.filter_cons_of_pos hsel]
      rfl
    · refine Or.inr ⟨fun h => hsel ((selects_recordToColumns_iff hts).mpr h.2), ?_⟩
      rw [List.filter_cons_of_neg hsel]
      exact List.append_nil _

theorem answered_concat {f : AuditFilters} {records : List AuditRecord} {r : AuditRecord} :
    Answered f (records ++ [r]) ↔ Answered f records ∧
      (passes f r = true → (∀ e ∈ records, e.id ≠ r.id) ∧ HasSearchedFields f r) := by
  unfold Answered
  rw [List.pairwise_append, List.forall_mem_append]
  simp only [List.mem_singleton, forall_eq, List.pairwise_singleton, true_and]
  constructor
  · rintro ⟨⟨hids, hlast⟩, hfields, hfield⟩
    exact ⟨⟨hids, hfields⟩, fun h => ⟨fun e he => hlast e he h, hfield h⟩⟩
  · rintro ⟨⟨hids, hfields⟩, hlast⟩
    exact ⟨⟨hids, fun e he h => (hlast h).1 e he⟩, hfields, fun h => (hlast h).2⟩

/-- The index finds at most what the log has, and all of it when it answers for each
record that passes. -/
theorem found_cases (f : AuditFilters) (log : List Projected)
    (hts : ∀ r ∈ log, IsAscii r.1.ts) :
    Answered f (log.map Prod.fst) ∧ found f log = filterAuditRecords (log.map Prod.fst) f ∨
      ¬ Answered f (log.map Prod.fst) ∧
        (found f log).length < (filterAuditRecords (log.map Prod.fst) f).length := by
  induction log using List.reverseRecOn with
  | nil => exact Or.inl ⟨⟨List.Pairwise.nil, fun r hr => nomatch hr⟩, rfl⟩
  | append_singleton log r ih =>
    obtain ⟨hlog, hr⟩ := List.forall_mem_append.mp hts
    have ih := ih hlog
    have hfound := found_concat f log r (hr r (List.mem_singleton_self r))
    have hids : (∀ e ∈ log.map Prod.fst, e.id ≠ r.1.id) ↔ ∀ e ∈ log, e.1.id ≠ r.1.id :=
      List.forall_mem_map
    rw [List.map_append, List.map_singleton, answered_concat, hids]
    unfold filterAuditRecords at ih ⊢
    rw [List.filter_append]
    by_cases hpasses : passes f r.1 = true
    · rw [List.filter_cons_of_pos hpasses, List.filter_nil]
      rcases hfound with ⟨hnew, -, hfields, heq⟩ | ⟨hlost, heq⟩
      · rw [heq]
        rcases ih with ⟨hall, hsame⟩ | ⟨hmissed, hless⟩
        · exact Or.inl ⟨⟨hall, fun _ => ⟨hnew, hfields⟩⟩, congrArg (· ++ [r.1]) hsame⟩
        · refine Or.inr ⟨fun h => hmissed h.1, ?_⟩
          rw [List.length_append, List.length_append]
          exact Nat.add_lt_add_right hless _
      · -- The record passes, and the index does not find it.
        refine Or.inr ⟨fun h => hlost ⟨(h.2 hpasses).1, hpasses, (h.2 hpasses).2⟩, ?_⟩
        rw [heq, List.length_append, List.length_singleton]
        rcases ih with ⟨-, hsame⟩ | ⟨-, hless⟩
        · rw [hsame]
          exact Nat.lt_succ_self _
        · exact Nat.lt_succ_of_lt hless
    · rw [List.filter_cons_of_neg hpasses, List.filter_nil, List.append_nil]
      rcases hfound with ⟨-, h, -⟩ | ⟨-, heq⟩
      · exact absurd h hpasses
      · rw [heq]
        refine ih.imp (fun h => ⟨⟨h.1, fun h' => absurd h' hpasses⟩, h.2⟩) fun h => ?_
        exact ⟨fun h' => h.1 h'.1, h.2⟩

/-! ## Parity -/

theorem queryRecords_perm {f : AuditFilters} {log : List Projected} {answer : List AuditRecord}
    (h : QueryRecords (project log) f answer) : answer.Perm (found f log) := by
  obtain ⟨rows, hperm, -, rfl⟩ := h
  exact hperm.map _

/-- There is an answer to every query. -/
theorem exists_queryRecords (db : AuditDb) (f : AuditFilters) : ∃ answer, QueryRecords db f answer :=
  ⟨_, sortDescOn (fun a => byteKey (Utf8.encode a.ts)) (db.filter (selects (conditions f))),
    sortDescOn_perm _ _, sortDescOn_pairwise _ _, rfl⟩

/-- Two results that tell the same. -/
def SameResult (records : List AuditRecord) (r r' : QueryAuditResult) : Prop :=
  r.summary.Same r'.summary ∧
    ((records.map fun r => r.id).Nodup → (records.map fun r => r.ts).Nodup →
      r.records = r'.records)

/-- Whatever the index answers to a query about a log, the handler makes the same summary of
it as of a scan of the log, and the same page when ids and times are distinct, if and only
if each record that passes the filters has an id that no earlier record has, and has the
fields that are searched for the empty text. -/
theorem queryAudit_parity_iff (localeKey : Str → List Nat)
    (hlocale : ∀ i j : Instant, localeKey (Iso.toISOString i) = localeKey (Iso.toISOString j) →
      i = j)
    (cfg : QueryConfig) (input : QueryAuditInput) (log : List Projected)
    (hts : ∀ r ∈ log, ∃ i : Instant, r.1.ts = Iso.toISOString i) :
    let records := log.map Prod.fst
    (∀ answer, QueryRecords (project log) input.filters answer →
      SameResult records (queryAuditHandler localeKey cfg input answer)
        (queryAuditHandler localeKey cfg input (filterAuditRecords records input.filters))) ↔
      Answered input.filters records := by
  intro records
  have hascii : ∀ r ∈ log, IsAscii r.1.ts := by
    intro r hr
    obtain ⟨i, hi⟩ := hts r hr
    rw [hi]
    exact isAscii_toISOString i
  constructor
  · intro hsame
    obtain ⟨answer, hanswer⟩ := exists_queryRecords (project log) input.filters
    rcases found_cases input.filters log hascii with ⟨hall, -⟩ | ⟨-, hless⟩
    · exact hall
    · -- The totals already differ.
      have htotal := (hsame answer hanswer).1.total
      unfold queryAuditHandler at htotal
      rw [total_summarizeAuditRecords, total_summarizeAuditRecords,
        (queryRecords_perm hanswer).length_eq] at htotal
      exact absurd htotal (Nat.ne_of_lt hless)
  · intro hall answer hanswer
    have hperm : answer.Perm (filterAuditRecords records input.filters) := by
      rcases found_cases input.filters log hascii with ⟨-, heq⟩ | ⟨hmissed, -⟩
      · exact heq ▸ queryRecords_perm hanswer
      · exact absurd hall hmissed
    refine ⟨summarizeAuditRecords_perm hperm, fun _ htimes => ?_⟩
    have hkeys : (answer.map fun r => localeKey r.ts).Nodup := by
      have hsub : ((filterAuditRecords records input.filters).map fun r => r.ts).Nodup :=
        htimes.sublist (List.filter_sublist.map _)
      have hnodup : (answer.map fun r => r.ts).Nodup := (hperm.map _).nodup_iff.mpr hsub
      have hiso : ∀ ts ∈ answer.map fun r => r.ts, ∃ i : Instant, ts = Iso.toISOString i := by
        intro ts hmem
        obtain ⟨r, hr, rfl⟩ := List.mem_map.mp hmem
        obtain ⟨e, he, rfl⟩ := List.mem_map.mp (List.mem_of_mem_filter (hperm.mem_iff.mp hr))
        exact hts e he
      show (answer.map (localeKey ∘ fun r => r.ts)).Nodup
      rw [← List.map_map]
      refine hnodup.map_on fun a ha b hb heq => ?_
      obtain ⟨i, rfl⟩ := hiso a ha
      obtain ⟨j, rfl⟩ := hiso b hb
      rw [hlocale i j heq]
    unfold queryAuditHandler
    dsimp only
    rw [sortDescOn_eq_of_perm _ hperm hkeys]

/-- Two records, one of a command, that touches no path. -/
def twoRecords : List Projected :=
  [({ tool := .writeFile, path := some "/etc/motd".toList, id := ['1'],
      ts := "2026-01-01T00:00:00.000Z".toList }, ⟨none, false, 0, false⟩),
    ({ tool := .execute, cmd := some "uptime".toList, id := ['2'],
       ts := "2026-01-02T00:00:00.000Z".toList }, ⟨none, false, 0, false⟩)]

theorem iso_twoRecords : ∀ r ∈ twoRecords, ∃ i : Instant, r.1.ts = Iso.toISOString i := by
  intro r hr
  rcases List.mem_pair.mp hr with rfl | rfl
  · exact ⟨⟨2026, 1, 1, 0, 0, 0, 0, by decide⟩, by decide⟩
  · exact ⟨⟨2026, 1, 2, 0, 0, 0, 0, by decide⟩, by decide⟩

/-- A query for a path that holds `etc`; both ways find the first record. -/
theorem queryAudit_parity_etc :
    let input : QueryAuditInput := { filters := { pathContains := some "etc".toList } }
    (∀ answer, QueryRecords (project twoRecords) input.filters answer →
      SameResult (twoRecords.map Prod.fst) (queryAuditHandler codeUnits ⟨50, 200⟩ input answer)
        (queryAuditHandler codeUnits ⟨50, 200⟩ input
          (filterAuditRecords (twoRecords.map Prod.fst) input.filters))) ↔
      Answered input.filters (twoRecords.map Prod.fst) :=
  queryAudit_parity_iff codeUnits
    (fun _ _ h => Iso.toISOString_injective (codeUnits_injective h)) ⟨50, 200⟩
    { filters := { pathContains := some "etc".toList } } twoRecords iso_twoRecords

/-- A query for a path that holds the empty text: the log has two such records, the
index one. -/
theorem not_queryAudit_parity :
    let input : QueryAuditInput := { filters := { pathContains := some [] } }
    QueryRecords (project twoRecords) input.filters [(twoRecords.map Prod.fst)[0]] ∧
      (queryAuditHandler codeUnits ⟨50, 200⟩ input
          [(twoRecords.map Prod.fst)[0]]).summary.total = 1 ∧
        (queryAuditHandler codeUnits ⟨50, 200⟩ input
          (filterAuditRecords (twoRecords.map Prod.fst) input.filters)).summary.total = 2 := by
  refine ⟨⟨(project twoRecords).take 1, ?_, List.pairwise_singleton _ _, rfl⟩, rfl, rfl⟩
  exact List.Perm.of_eq (by decide +kernel)

end HomelabMcp.Audit
