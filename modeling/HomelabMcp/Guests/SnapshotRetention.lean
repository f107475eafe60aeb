import Mathlib.Data.List.DropRight
import Mathlib.Data.List.Forall2
import Mathlib.Data.List.ReduceOption
import HomelabMcp.Guests.SnapshotTools

/-!
# Retention of snapshots

`Lists names output`: the listing shows the snapshots `names`, whatever the tree
looks like. `Ledger` is what a run of `snapshot_create` did to the guest: whether
the new snapshot was made, and which deletions were asked for.

- `parseSnapshotList_names`: the parser reads the names off any tree.
- `snapshotCreate_retention`: what a run deletes, and what it leaves.
-/

namespace HomelabMcp.Guests

open SlashPath Text SortKey Integrity Audit Guardrails Program Shell Tools

/-! ## Reading the tree -/

/-- What the tree puts in front of a name: blanks, bars and arrows. -/
inductive IsDrawing : Str → Prop
  | nil : IsDrawing []
  | blank {c : Char} {s : Str} : isSpace c = true → IsDrawing s → IsDrawing (c :: s)
  | backquote {s : Str} : IsDrawing s → IsDrawing (backquote :: s)
  | bar {s : Str} : IsDrawing s → IsDrawing ('|' :: s)
  | arrow {s : Str} : IsDrawing s → IsDrawing ('-' :: '>' :: s)

/-- The names that Proxmox allows. -/
structure IsSnapshotName (name : Str) : Prop where
  nonempty : name ≠ []
  charset : ∀ c ∈ name, isSnapshotChar c = true

/-- A line of the listing: the tree, and a name with what is said of it. -/
def DrawsLine (item : Option Str) (raw : Str) : Prop :=
  match item with
  | none => IsDrawing raw
  | some name => ∃ drawing rest, raw = drawing ++ name ++ rest ∧ IsDrawing drawing ∧
      IsSnapshotName name ∧ ∀ c ∈ rest.head?, isSpace c = true

/-- The listing shows these snapshots, and the marker of the present state. -/
def Lists (names : List Str) (output : Str) : Prop :=
  ∃ items : List (Option Str), List.Forall₂ DrawsLine items (lines output) ∧
    items.reduceOption.filter (fun name => decide (name ≠ currentMarker)) = names

theorem isSpace_of_isSnapshotChar {c : Char} (h : isSnapshotChar c = true) :
    isSpace c = false := by
  have hrange : 45 ≤ c.toNat ∧ c.toNat ≤ 122 := by
    unfold isSnapshotChar Char.isAlphanum Char.isAlpha Char.isUpper Char.isLower Char.isDigit at h
    simp only [Bool.or_eq_true, Bool.and_eq_true, decide_eq_true_eq, beq_iff_eq, ge_iff_le,
      UInt32.le_iff_toNat_le] at h
    rcases h with (((⟨hlo, hhi⟩ | ⟨hlo, hhi⟩) | ⟨hlo, hhi⟩) | rfl) | rfl
    · exact ⟨le_trans (by decide) hlo, le_trans hhi (by decide)⟩
    · exact ⟨le_trans (by decide) hlo, le_trans hhi (by decide)⟩
    · exact ⟨le_trans (by decide) hlo, le_trans hhi (by decide)⟩
    · decide
    · decide
  unfold isSpace
  simp only [Bool.or_eq_false_iff, Bool.and_eq_false_iff, decide_eq_false_iff_not,
    beq_eq_false_iff_ne]
  omega

theorem replaceArrows_cons {c : Char} (hc : c ≠ '-') (s : Str) :
    replaceArrows (c :: s) = c :: replaceArrows s := by
  rw [replaceArrows]
  exact fun _ h => absurd h hc

theorem stripDrawing_cons {c : Char} (hc : c ≠ '-') (s : Str) :
    stripDrawing (c :: s) = (if c == backquote || c == '|' then ' ' else c) :: stripDrawing s := by
  unfold stripDrawing
  rw [List.map_cons, replaceArrows_cons]
  split
  · decide
  · exact hc

/-- A dash is no arrow unless a `>` follows. -/
theorem stripDrawing_dash {s : Str} (hs : s.head? ≠ some '>') :
    stripDrawing ('-' :: s) = '-' :: stripDrawing s := by
  unfold stripDrawing
  rw [List.map_cons, if_neg (by decide)]
  cases s with
  | nil => rfl
  | cons c s =>
    have hc : c ≠ '>' := fun h => hs (congrArg some h)
    have hmap : (if c == Shell.backquote || c == '|' then ' ' else c) ≠ '>' := by
      split
      · decide
      · exact hc
    rw [List.map_cons, replaceArrows]
    exact fun _ _ h => absurd (List.cons.inj h).1 hmap

/-- Stripped of the tree, a line is blank where the tree was. -/
theorem stripDrawing_append_of_isDrawing {drawing : Str} (h : IsDrawing drawing) (s : Str) :
    ∃ blanks, (∀ c ∈ blanks, isSpace c = true) ∧
      stripDrawing (drawing ++ s) = blanks ++ stripDrawing s := by
  induction h with
  | nil => exact ⟨[], by simp, rfl⟩
  | @blank c d hc _ ih =>
    obtain ⟨blanks, hblanks, heq⟩ := ih
    have hne : c ≠ '-' := by
      rintro rfl
      exact absurd hc (by decide)
    rw [List.cons_append, stripDrawing_cons hne, heq]
    refine ⟨_ :: blanks, List.forall_mem_cons.mpr ⟨?_, hblanks⟩, rfl⟩
    split
    · decide
    · exact hc
  | backquote _ ih =>
    obtain ⟨blanks, hblanks, heq⟩ := ih
    rw [List.cons_append, stripDrawing_cons (by decide), heq]
    exact ⟨' ' :: blanks, List.forall_mem_cons.mpr ⟨by decide, hblanks⟩, rfl⟩
  | bar _ ih =>
    obtain ⟨blanks, hblanks, heq⟩ := ih
    rw [List.cons_append, stripDrawing_cons (by decide), heq]
    exact ⟨' ' :: blanks, List.forall_mem_cons.mpr ⟨by decide, hblanks⟩, rfl⟩
  | @arrow d _ ih =>
    obtain ⟨blanks, hblanks, heq⟩ := ih
    have harrow : stripDrawing ('-' :: '>' :: d ++ s) = ' ' :: stripDrawing (d ++ s) := rfl
    rw [harrow, heq]
    exact ⟨' ' :: blanks, List.forall_mem_cons.mpr ⟨by decide, hblanks⟩, rfl⟩

/-- A name ends where its characters do. -/
theorem stripDrawing_name_append {name rest : Str}
    (hname : ∀ c ∈ name, isSnapshotChar c = true) (hrest : ∀ c ∈ rest.head?, isSpace c = true) :
    ∃ tail, (∀ c ∈ tail.head?, isSpace c = true) ∧
      stripDrawing (name ++ rest) = name ++ tail := by
  have htail : ∀ c ∈ (stripDrawing rest).head?, isSpace c = true := by
    cases rest with
    | nil => simp [stripDrawing, replaceArrows]
    | cons c rest =>
      have hc : isSpace c = true := hrest c rfl
      have hne : c ≠ '-' := by
        rintro rfl
        exact absurd hc (by decide)
      rw [stripDrawing_cons hne]
      intro d hd
      cases hd
      split
      · decide
      · exact hc
  refine ⟨stripDrawing rest, htail, ?_⟩
  induction name with
  | nil => rfl
  | cons c name ih =>
    rw [List.forall_mem_cons] at hname
    have hback : (c == Shell.backquote || c == '|') = false := by
      rw [Bool.or_eq_false_iff, beq_eq_false_iff_ne, beq_eq_false_iff_ne]
      constructor
      · rintro rfl
        exact absurd hname.1 (by decide)
      · rintro rfl
        exact absurd hname.1 (by decide)
    by_cases hc : c = '-'
    · -- A dash of the name starts no arrow: what follows it is no `>`.
      subst hc
      have hnext : (name ++ rest).head? ≠ some '>' := by
        cases name with
        | nil => exact fun h => absurd (hrest '>' h) (by decide)
        | cons d name =>
          rintro ⟨⟩
          exact absurd (hname.2 '>' List.mem_cons_self) (by decide)
      rw [List.cons_append, stripDrawing_dash hnext, ih hname.2]
      rfl
    · rw [List.cons_append, stripDrawing_cons hc, hback, ih hname.2]
      rfl

theorem trim_blanks {blanks : Str} (h : ∀ c ∈ blanks, isSpace c = true) : trim blanks = [] := by
  have hdrop : blanks.dropWhile isSpace = [] := List.dropWhile_eq_nil_iff.mpr h
  unfold trim
  rw [hdrop]
  rfl

theorem trim_blanks_append {blanks name tail : Str} (hblanks : ∀ c ∈ blanks, isSpace c = true)
    (hne : name ≠ []) (hname : ∀ c ∈ name, isSpace c = false)
    (htail : ∀ c ∈ tail.head?, isSpace c = true) :
    ∃ tail', (∀ c ∈ tail'.head?, isSpace c = true) ∧
      trim (blanks ++ (name ++ tail)) = name ++ tail' := by
  have hfront : (blanks ++ (name ++ tail)).dropWhile isSpace = name ++ tail := by
    rw [List.dropWhile_append_of_pos hblanks]
    cases name with
    | nil => exact absurd rfl hne
    | cons c name => rw [List.cons_append, List.dropWhile_cons_of_neg (by simp [hname])]
  have hback : name.reverse.dropWhile isSpace = name.reverse := by
    cases hrev : name.reverse with
    | nil => rfl
    | cons c r =>
      have hc : c ∈ name := List.mem_reverse.mp (hrev ▸ List.mem_cons_self)
      rw [List.dropWhile_cons_of_neg (by simp [hname c hc])]
  refine ⟨tail.rdropWhile isSpace, ?_, ?_⟩
  · intro c hc
    obtain ⟨r, hr⟩ := List.rdropWhile_prefix isSpace (l := tail)
    refine htail c ?_
    rw [← hr]
    cases hcut : tail.rdropWhile isSpace with
    | nil => rw [hcut] at hc; cases hc
    | cons d t => rw [hcut] at hc; exact hc
  · unfold trim
    rw [hfront, List.reverse_append, List.dropWhile_append, hback]
    unfold List.rdropWhile
    split
    · next h =>
      rw [List.isEmpty_iff.mp h, List.reverse_nil, List.append_nil, List.reverse_reverse]
    · rw [List.reverse_append, List.reverse_reverse]

/-- A blank ends the word before it, which may be empty. -/
theorem words_of_isSpace {c : Char} (hc : isSpace c = true) (s : Str) :
    ∃ ws, words (c :: s) = [] :: ws := by
  induction s generalizing c with
  | nil => exact ⟨[[]], by simp [words, hc]⟩
  | cons d s ih =>
    rw [words, if_pos hc]
    split
    · next hd => exact ih (by simpa using hd)
    · exact ⟨_, rfl⟩

theorem words_append {name tail : Str} (hname : ∀ c ∈ name, isSpace c = false)
    (htail : ∀ c ∈ tail.head?, isSpace c = true) : ∃ ws, words (name ++ tail) = name :: ws := by
  induction name with
  | nil =>
    cases tail with
    | nil => exact ⟨[], rfl⟩
    | cons c tail => exact words_of_isSpace (htail c rfl) tail
  | cons c name ih =>
    rw [List.forall_mem_cons] at hname
    obtain ⟨ws, hws⟩ := ih hname.2
    refine ⟨ws, ?_⟩
    rw [List.cons_append, words, if_neg (by simp [hname.1]), hws]
    rfl

/-- A line without a name is skipped. -/
theorem parseSnapshotLine_none {raw : Str} (h : DrawsLine none raw) :
    parseSnapshotLine raw = none := by
  obtain ⟨blanks, hblanks, heq⟩ := stripDrawing_append_of_isDrawing h []
  have hnil : stripDrawing [] = [] := rfl
  rw [List.append_nil, hnil, List.append_nil] at heq
  unfold parseSnapshotLine
  rw [heq, trim_blanks hblanks]
  rfl

/-- A line with a name yields the name, unless it is the marker. -/
theorem parseSnapshotLine_some {name raw : Str} (h : DrawsLine (some name) raw) :
    (name = currentMarker ∧ parseSnapshotLine raw = none) ∨
      (name ≠ currentMarker ∧
        ∃ text, parseSnapshotLine raw = some ⟨name, text, isMcpSnapshot name⟩) := by
  obtain ⟨drawing, rest, rfl, hdrawing, ⟨hne, hcharset⟩, hrest⟩ := h
  have hname : ∀ c ∈ name, isSpace c = false := fun c hc =>
    isSpace_of_isSnapshotChar (hcharset c hc)
  obtain ⟨blanks, hblanks, hstrip⟩ := stripDrawing_append_of_isDrawing hdrawing (name ++ rest)
  obtain ⟨tail, htail, hcut⟩ := stripDrawing_name_append hcharset hrest
  obtain ⟨tail', htail', htrim⟩ := trim_blanks_append hblanks hne hname htail
  obtain ⟨ws, hws⟩ := words_append hname htail'
  have hwords : words (trim (stripDrawing (drawing ++ name ++ rest))) = name :: ws := by
    rw [List.append_assoc, hstrip, hcut, htrim, hws]
  unfold parseSnapshotLine
  rw [hwords]
  by_cases hcurrent : name = currentMarker
  · exact Or.inl ⟨hcurrent, if_pos (Or.inr hcurrent)⟩
  · exact Or.inr ⟨hcurrent, joinWith ' ' ws, if_neg (not_or.mpr ⟨hne, hcurrent⟩)⟩

/-- The names that the retention planner is given (snapshotTools.ts:131). -/
def mcpNamesOf (output : Str) : List Str :=
  ((parseSnapshotList output).filter fun s => s.mcpManaged).map fun s => s.name

/-- The parser reads the server's names off any tree. -/
theorem mcpNamesOf_eq {names : List Str} {output : Str} (h : Lists names output) :
    mcpNamesOf output = names.filter isMcpSnapshot := by
  obtain ⟨items, hlines, rfl⟩ := h
  unfold mcpNamesOf parseSnapshotList
  generalize lines output = ls at hlines
  induction hlines with
  | nil => rfl
  | @cons item raw items ls hline _ ih =>
    cases item with
    | none =>
      rw [List.filterMap_cons_none (parseSnapshotLine_none hline), ih]
      rfl
    | some name =>
      rw [List.reduceOption_cons_of_some]
      rcases parseSnapshotLine_some hline with ⟨hcurrent, hparse⟩ | ⟨hcurrent, text, hparse⟩
      · have hskip : decide (name ≠ currentMarker) = false := by simpa using hcurrent
        rw [List.filterMap_cons_none hparse, ih, List.filter_cons, hskip]
        rfl
      · have hkeep : decide (name ≠ currentMarker) = true := by simpa using hcurrent
        rw [List.filterMap_cons_some hparse, List.filter_cons (x := name), hkeep, List.filter_cons]
        show List.map _ (if isMcpSnapshot name = true then _ else _) =
          List.filter isMcpSnapshot (name :: _)
        rw [List.filter_cons]
        split
        · rw [List.map_cons, ih]
        · exact ih

/-! ## The plan -/

theorem planSnapshotEviction_eq (mcpNames : List Str) (cap : Int) :
    planSnapshotEviction mcpNames cap 1 =
      (sortOn codeUnits mcpNames).take (mcpNames.length - (cap - 1).toNat) := by
  have hlen : (sortOn codeUnits mcpNames).length = mcpNames.length :=
    (sortOn_perm codeUnits mcpNames).length_eq
  unfold planSnapshotEviction
  dsimp only
  rw [hlen]
  split
  · rw [show mcpNames.length - (cap - 1).toNat = 0 by omega, List.take_zero]
  · rw [show (max 0 (cap - 1)).toNat = (cap - 1).toNat by omega]

/-- What the plan leaves of the old snapshots. -/
def keptSnapshots (mcpNames : List Str) (cap : Int) : List Str :=
  (sortOn codeUnits mcpNames).drop (mcpNames.length - (cap - 1).toNat)

theorem length_keptSnapshots (mcpNames : List Str) (cap : Int) :
    (keptSnapshots mcpNames cap).length = min mcpNames.length (cap - 1).toNat := by
  have hlen : (sortOn codeUnits mcpNames).length = mcpNames.length :=
    (sortOn_perm codeUnits mcpNames).length_eq
  unfold keptSnapshots
  rw [List.length_drop, hlen]
  omega

theorem plan_append_kept (mcpNames : List Str) (cap : Int) :
    (planSnapshotEviction mcpNames cap 1 ++ keptSnapshots mcpNames cap).Perm mcpNames := by
  rw [planSnapshotEviction_eq, keptSnapshots, List.take_append_drop]
  exact sortOn_perm codeUnits mcpNames

theorem mem_of_mem_plan {mcpNames : List Str} {cap : Int} {name : Str}
    (h : name ∈ planSnapshotEviction mcpNames cap 1) : name ∈ mcpNames :=
  (plan_append_kept mcpNames cap).mem_iff.mp (List.mem_append_left _ h)

/-- No snapshot that goes is later in the order than one that stays. -/
theorem keyLe_of_mem_plan {mcpNames : List Str} {cap : Int} {gone kept : Str}
    (hgone : gone ∈ planSnapshotEviction mcpNames cap 1)
    (hkept : kept ∈ keptSnapshots mcpNames cap) : keyLe codeUnits gone kept := by
  have hsorted := sortOn_pairwise codeUnits mcpNames
  rw [← List.take_append_drop (mcpNames.length - (cap - 1).toNat) (sortOn codeUnits mcpNames),
    List.pairwise_append] at hsorted
  rw [planSnapshotEviction_eq] at hgone
  exact hsorted.2.2 gone hgone kept hkept

/-- What is not planned to go is what the plan keeps. -/
theorem filter_notMem_plan {mcpNames : List Str} (hnd : mcpNames.Nodup) (cap : Int) :
    (mcpNames.filter fun n => decide (n ∉ planSnapshotEviction mcpNames cap 1)).Perm
      (keptSnapshots mcpNames cap) := by
  have hperm := plan_append_kept mcpNames cap
  have hdisjoint := (List.nodup_append.mp (hperm.nodup_iff.mpr hnd)).2.2
  refine (hperm.filter _).symm.trans ?_
  rw [List.filter_append]
  have hgone : (planSnapshotEviction mcpNames cap 1).filter
      (fun n => decide (n ∉ planSnapshotEviction mcpNames cap 1)) = [] := by
    rw [List.filter_eq_nil_iff]
    intro n hn
    simpa using hn
  have hkept : (keptSnapshots mcpNames cap).filter
      (fun n => decide (n ∉ planSnapshotEviction mcpNames cap 1)) = keptSnapshots mcpNames cap := by
    rw [List.filter_eq_self]
    intro n hn
    simpa using fun hgone => hdisjoint n hgone n hn rfl
  rw [hgone, hkept, List.nil_append]

/-- A generated name is the server's. -/
theorem isMcpSnapshot_generateSnapshotName (now : Instant) :
    isMcpSnapshot (generateSnapshotName now) = true := by
  unfold generateSnapshotName sanitizeSnapshotName
  rw [codeUnits_append, List.map_append]
  have hstart : (codeUnits mcpSnapshotPrefix).map
      (fun u => if isSnapshotChar (unitChar u) then unitChar u else '-') = mcpSnapshotPrefix := by
    decide
  rw [hstart]
  rfl

/-! ## What a run does to the guest -/

structure Ledger where
  /-- The listing that the run read. -/
  listing : Option Str
  created : Option Str
  /-- The deletions asked for, and which of them succeeded. -/
  deletes : List (Str × Bool)

def succeeded : Except Str ExecResult → Bool
  | .ok res => res.exitCode == some 0
  | .error _ => false

def Ledger.next (s : Ledger) : (c : SnapshotCall) → SnapshotAnswer c → Ledger
  | .op (.listSnapshots _ _), .ok res =>
    if res.exitCode = some 0 then { s with listing := some res.stdout } else s
  | .op (.createSnapshot _ _ name _), .ok res =>
    if res.exitCode = some 0 then { s with created := some name } else s
  | .op (.deleteSnapshot _ _ name), r =>
    { s with deletes := s.deletes ++ [(name, succeeded r)] }
  | _, _ => s

/-- Follows a run, and allows every call. -/
def ledger : Monitor SnapshotCall SnapshotAnswer Ledger where
  next := Ledger.next
  allowed _ _ := True

/-- What some events did. -/
def ledgerOf (events : List (Event SnapshotCall SnapshotAnswer)) : Ledger :=
  ledger.after ⟨none, none, []⟩ events

instance : LawfulBEq (Str × Bool) := inferInstance

/-- The snapshots that are on the guest afterwards, when `names` were before. -/
def Ledger.remaining (s : Ledger) (names : List Str) : List Str :=
  (names ++ s.created.toList).filter fun name => decide ((name, true) ∉ s.deletes)

/-- The deletions follow the plan for the listing that the run read, in its order,
and only after the new snapshot was made. -/
def Follows (cap : Int) (new : Str) (s : Ledger) : Prop :=
  (s.created = none ∧ s.deletes = []) ∨
    ∃ output, s.created = some new ∧ s.listing = some output ∧
      s.deletes.map Prod.fst <+: planSnapshotEviction (mcpNamesOf output) cap 1 ∧
      ((∀ d ∈ s.deletes, d.2 = true) →
        s.deletes.map Prod.fst = planSnapshotEviction (mcpNamesOf output) cap 1)

section
variable {cap : Int} {new : Str} {s : Ledger}

theorem meets_detectGuestType {vmid : Nat} {post : Ledger → Outcome Str GuestType → Prop}
    (hreturned : ∀ type, post s (.returned type)) (hthrown : ∀ e, post s (.thrown e)) :
    ledger.Meets post s (detectGuestType vmid) := by
  unfold detectGuestType
  rw [Monitor.meets_bind, meets_exec]
  refine ⟨trivial, fun res => ?_, hthrown⟩
  show ledger.Meets post s (if _ then pure .pct else pure .qm)
  rw [Monitor.meets_ite]
  exact ⟨fun _ => hreturned .pct, fun _ => hreturned .qm⟩

theorem meets_listSnapshots {type : GuestType} {vmid : Nat}
    {post : Ledger → Outcome Str (List SnapshotInfo) → Prop}
    (hreturned : ∀ output,
      post { s with listing := some output } (.returned (parseSnapshotList output)))
    (hthrown : ∀ e, post s (.thrown e)) :
    ledger.Meets post s (listSnapshots type vmid) := by
  unfold listSnapshots
  rw [Monitor.meets_bind, meets_exec]
  refine ⟨trivial, fun res => ?_, hthrown⟩
  show ledger.Meets post (if res.exitCode = some 0 then _ else _)
    (if res.exitCode ≠ some 0 then _ else _)
  by_cases h : res.exitCode = some 0
  · rw [if_pos h, if_neg (not_not.mpr h)]
    exact hreturned res.stdout
  · rw [if_neg h, if_pos h]
    exact hthrown _

theorem meets_fetchConfig {type : GuestType} {vmid : Nat}
    {post : Ledger → Outcome Str (Option Str) → Prop}
    (hreturned : ∀ text, post s (.returned text)) :
    ledger.Meets post s (fetchConfig type vmid) := by
  unfold fetchConfig
  rw [Monitor.meets_tryCatch, Monitor.meets_bind, meets_exec]
  exact ⟨trivial, fun res => hreturned _, fun e => hreturned none⟩

/-- What the loop of deletions adds to the ledger: a part of the list from its
head, all of it unless a deletion could not be run. -/
theorem meets_evictSnapshots {type : GuestType} {vmid : Nat} (names : List Str) (s : Ledger) :
    ledger.Meets (fun t o => ∃ more, t = { s with deletes := s.deletes ++ more } ∧
        more.map Prod.fst <+: names ∧
        ((∃ r, o = .returned r) ∨ (∀ d ∈ more, d.2 = true) → more.map Prod.fst = names))
      s (evictSnapshots type vmid names) := by
  induction names generalizing s with
  | nil =>
    exact ⟨[], by rw [List.append_nil], List.prefix_refl _, fun _ => rfl⟩
  | cons old rest ih =>
    unfold evictSnapshots
    rw [Monitor.meets_bind, meets_exec]
    refine ⟨trivial, fun res => ?_, fun e => ?_⟩
    · show ledger.Meets _ { s with deletes := s.deletes ++ [(old, succeeded (.ok res))] } _
      rw [Monitor.meets_bind]
      refine (ih _).mono ?_
      rintro t o ⟨more, rfl, hstart, hall⟩
      have hwhole : ∃ more', { s with deletes := s.deletes ++ [(old, succeeded (.ok res))] ++ more } =
          { s with deletes := s.deletes ++ more' } ∧ more'.map Prod.fst <+: old :: rest ∧
          ((∃ r, o = .returned r) ∨ (∀ d ∈ more', d.2 = true) →
            more'.map Prod.fst = old :: rest) := by
        refine ⟨(old, succeeded (.ok res)) :: more, by rw [List.append_assoc]; rfl,
          List.prefix_cons_inj old |>.mpr hstart, fun h => ?_⟩
        rw [List.map_cons, hall (h.imp_right fun h => (List.forall_mem_cons.mp h).2)]
      cases o with
      | returned r =>
        obtain ⟨more', heq, hstart', hall'⟩ := hwhole
        show ledger.Meets _ _ (if _ then pure _ else pure _)
        rw [Monitor.meets_ite]
        constructor
        · exact fun _ => ⟨more', heq, hstart', fun _ => hall' (Or.inl ⟨r, rfl⟩)⟩
        · exact fun _ => ⟨more', heq, hstart', fun _ => hall' (Or.inl ⟨r, rfl⟩)⟩
      | thrown e =>
        obtain ⟨more', heq, hstart', hall'⟩ := hwhole
        refine ⟨more', heq, hstart', fun h => hall' (h.imp_left ?_)⟩
        rintro ⟨r, hr⟩
        cases hr
      | unfinished =>
        obtain ⟨more', heq, hstart', hall'⟩ := hwhole
        refine ⟨more', heq, hstart', fun h => hall' (h.imp_left ?_)⟩
        rintro ⟨r, hr⟩
        cases hr
    · refine ⟨[(old, false)], rfl, ⟨rest, rfl⟩, ?_⟩
      rintro (⟨r, hr⟩ | hsucceeded)
      · cases hr
      · cases hsucceeded _ (List.mem_singleton_self _)

/-- A run of `snapshot_create` deletes by the plan, and nothing unless the new
snapshot was made. -/
theorem meets_snapshotCreateHandler (cfg : SnapshotConfig) (input : SnapshotCreateInput)
    (now : Instant) :
    ledger.Meets (fun t _ => Follows cfg.perGuestCap (generateSnapshotName now) t)
      ⟨none, none, []⟩ (snapshotCreateHandler cfg input now) := by
  have hnone : ∀ listing, Follows cfg.perGuestCap (generateSnapshotName now)
      ⟨listing, none, []⟩ := fun listing => Or.inl ⟨rfl, rfl⟩
  unfold snapshotCreateHandler
  rw [Monitor.meets_bind]
  refine meets_detectGuestType (fun type => ?_) fun e => hnone none
  show ledger.Meets _ _ (_ >>= _)
  rw [Monitor.meets_bind]
  refine meets_listSnapshots (fun output => ?_) fun e => hnone none
  show ledger.Meets _ ⟨some output, none, []⟩ (_ >>= _)
  rw [Monitor.meets_bind, meets_exec]
  refine ⟨trivial, fun res => ?_, fun e => hnone _⟩
  show ledger.Meets _ (if res.exitCode = some 0 then _ else _)
    (if res.exitCode ≠ some 0 then _ else _)
  by_cases hcreated : res.exitCode = some 0
  · rw [if_pos hcreated, if_neg (not_not.mpr hcreated), Monitor.meets_bind]
    refine (meets_evictSnapshots _ _).mono ?_
    rintro t o ⟨more, rfl, hstart, hall⟩
    have hfollows : Follows cfg.perGuestCap (generateSnapshotName now)
        ⟨some output, some (generateSnapshotName now), more⟩ :=
      Or.inr ⟨output, rfl, rfl, hstart, fun h => hall (Or.inr h)⟩
    cases o with
    | returned r =>
      show ledger.Meets _ _ (append _ >>= _)
      rw [Monitor.meets_bind, meets_append]
      exact ⟨trivial, hfollows⟩
    | thrown e => exact hfollows
    | unfinished => exact hfollows
  · -- The failed creation is diagnosed, which deletes nothing.
    rw [if_neg hcreated, if_pos hcreated, Monitor.meets_bind]
    exact meets_fetchConfig fun text => hnone _

end

/-- A run of `snapshot_create` on a guest with the snapshots `names`. -/
theorem snapshotCreate_retention (cfg : SnapshotConfig) (input : SnapshotCreateInput)
    (now : Instant) (w : Nat → (c : SnapshotCall) → SnapshotAnswer c) (names : List Str) (hnd : names.Nodup) :
    let s := ledgerOf (run w 0 (snapshotCreateHandler cfg input now)).1
    (∀ output, s.listing = some output → Lists names output) →
    -- The node refuses a name that is taken.
    (∀ name, s.created = some name → name ∉ names) →
    (s.created = none → s.deletes = []) ∧
    ∀ name, s.created = some name →
      (∀ d ∈ s.deletes, isMcpSnapshot d.1 = true ∧ d.1 ∈ names ∧ d.1 ≠ name) ∧
      ((∀ d ∈ s.deletes, d.2 = true) → ∃ kept : List Str,
        ((s.remaining names).filter isMcpSnapshot).Perm (name :: kept) ∧
        ((name :: kept).length : Int) =
          min (((names.filter isMcpSnapshot).length : Int) + 1) (max 1 cfg.perGuestCap) ∧
        ∀ k ∈ kept, ∀ n ∈ names.filter isMcpSnapshot, n ∉ kept → keyLe codeUnits n k) := by
  intro s hlists hfresh
  have hmeets := ((meets_snapshotCreateHandler cfg input now).run w 0).2
  rcases hmeets with ⟨hcreated, hdeletes⟩ | ⟨output, hcreated, hlisting, hstart, hall⟩
  · refine ⟨fun _ => hdeletes, fun name hname => ?_⟩
    rw [show s.created = none from hcreated] at hname
    cases hname
  refine ⟨fun hnone => ?_, fun name hname => ?_⟩
  · rw [show s.created = some _ from hcreated] at hnone
    cases hnone
  have hmcp : mcpNamesOf output = names.filter isMcpSnapshot := mcpNamesOf_eq (hlists output hlisting)
  have hnew := hfresh name hname
  rw [hmcp] at hstart hall
  have hmem : ∀ d ∈ s.deletes, d.1 ∈ names.filter isMcpSnapshot := fun d hd =>
    mem_of_mem_plan (hstart.subset (List.mem_map_of_mem hd))
  refine ⟨fun d hd => ?_, fun hsucceeded => ?_⟩
  · obtain ⟨hin, hismcp⟩ := List.mem_filter.mp (hmem d hd)
    exact ⟨hismcp, hin, fun heq => hnew (heq ▸ hin)⟩
  have hplan := hall hsucceeded
  have hnamed : name = generateSnapshotName now :=
    Option.some.inj (hname.symm.trans hcreated)
  have hgone : ∀ n, (n, true) ∈ s.deletes ↔
      n ∈ planSnapshotEviction (names.filter isMcpSnapshot) cfg.perGuestCap 1 := by
    intro n
    rw [← hplan, List.mem_map]
    constructor
    · exact fun h => ⟨(n, true), h, rfl⟩
    · rintro ⟨⟨m, b⟩, h, rfl⟩
      have hb : b = true := hsucceeded _ h
      exact hb ▸ h
  refine ⟨keptSnapshots (names.filter isMcpSnapshot) cfg.perGuestCap, ?_, ?_, ?_⟩
  · unfold Ledger.remaining
    rw [hname, Option.toList_some, List.filter_append, List.filter_append]
    have hstays : [name].filter (fun n => decide ((n, true) ∉ s.deletes)) = [name] := by
      rw [List.filter_eq_self]
      intro n hn
      rw [List.mem_singleton.mp hn, decide_eq_true_eq, hgone]
      exact fun h => hnew (List.mem_filter.mp (mem_of_mem_plan h)).1
    have hmine : [name].filter isMcpSnapshot = [name] := by
      rw [List.filter_eq_self]
      intro n hn
      rw [List.mem_singleton.mp hn, hnamed]
      exact isMcpSnapshot_generateSnapshotName now
    rw [hstays, hmine, List.filter_comm]
    simp only [hgone]
    exact (List.perm_append_singleton _ _).trans
      ((filter_notMem_plan (hnd.filter _) cfg.perGuestCap).cons name)
  · rw [List.length_cons, length_keptSnapshots]
    omega
  · intro k hk n hn hnot
    rcases List.mem_append.mp ((plan_append_kept _ cfg.perGuestCap).mem_iff.mpr hn) with h | h
    · exact keyLe_of_mem_plan h hk
    · exact absurd h hnot

/-- A node on which every command succeeds, with one snapshot on each guest. -/
def oneSnapshot : Nat → (c : SnapshotCall) → SnapshotAnswer c
  | _, .op (.listSnapshots _ _) =>
    .ok ⟨"|-> mcp-1 before\n   -> current You are here!".toList, [], some 0⟩
  | _, .op _ => .ok ⟨[], [], some 0⟩
  | _, .append _ => ()
  | _, .check _ | _, .peek _ => ⟨false, 1, 3, 600000⟩
  | _, .clock => 0

theorem lists_oneSnapshot :
    Lists ["mcp-1".toList] "|-> mcp-1 before\n   -> current You are here!".toList := by
  refine ⟨[some "mcp-1".toList, some currentMarker], ?_, by decide⟩
  rw [show lines "|-> mcp-1 before\n   -> current You are here!".toList =
    ["|-> mcp-1 before".toList, "   -> current You are here!".toList] by decide +kernel]
  refine .cons ?_ (.cons ?_ .nil)
  · exact ⟨"|-> ".toList, " before".toList, rfl, .bar (.arrow (.blank (by decide) .nil)),
      ⟨by decide, List.all_eq_true.mp (by decide)⟩, by rintro _ ⟨⟩; decide⟩
  · exact ⟨"   -> ".toList, " You are here!".toList, rfl,
      .blank (by decide) (.blank (by decide) (.blank (by decide)
        (.arrow (.blank (by decide) .nil)))), ⟨by decide, List.all_eq_true.mp (by decide)⟩,
      by rintro _ ⟨⟩; decide⟩

/-- With a cap of one, the new snapshot takes the place of the old one. -/
theorem snapshotCreate_retention_oneSnapshot :
    let cfg : SnapshotConfig := ⟨"pve".toList, 1, false, 2000, 60000⟩
    let now : Instant := ⟨2026, 6, 9, 21, 30, 0, 0, by decide⟩
    let s := ledgerOf (run oneSnapshot 0 (snapshotCreateHandler cfg ⟨105, none⟩ now)).1
    s.deletes = [("mcp-1".toList, true)] ∧
      ∃ kept : List Str, ((s.remaining ["mcp-1".toList]).filter isMcpSnapshot).Perm
        ("mcp-20260609-213000".toList :: kept) ∧ (kept.length : Int) + 1 = 1 := by
  intro cfg now s
  have hlisting : s.listing = some "|-> mcp-1 before\n   -> current You are here!".toList := by
    decide +kernel
  have hcreated : s.created = some "mcp-20260609-213000".toList := by decide +kernel
  have hdeletes : s.deletes = [("mcp-1".toList, true)] := by decide +kernel
  obtain ⟨-, hall⟩ := snapshotCreate_retention cfg ⟨105, none⟩ now oneSnapshot ["mcp-1".toList]
    (by decide)
    (fun output h => Option.some.inj (hlisting.symm.trans h) ▸ lists_oneSnapshot)
    (fun name h => Option.some.inj (hcreated.symm.trans h) ▸ by decide)
  obtain ⟨-, hremaining⟩ := hall _ hcreated
  obtain ⟨kept, hperm, hlen, -⟩ := hremaining (by rw [show s.deletes = _ from hdeletes]; decide)
  exact ⟨hdeletes, kept, hperm, by simpa [cfg] using hlen⟩

end HomelabMcp.Guests
