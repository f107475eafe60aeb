import HomelabMcp.Census.Drift

/-!
# Honest drift

An item that is missing from a snapshot may be gone, or it was cut off or not listed when
the snapshot was taken. What the differ takes for new and for gone is compared with what
the node had.

- `snapshot_of_store`: every stored snapshot is that of the last call that wrote its file.
- `drift_honest_iff`: the runs whose drift reports are honest.
-/

namespace HomelabMcp.Census

open SlashPath Text SortKey KeyedList Backup

variable {setup : Setup}

/-! ## One section -/

/-- A section at the time of a call: whether it was collected, whether its listing failed,
and what the node had. -/
structure View (α : Type) where
  collected : Bool
  fails : Bool
  shown : List α

namespace View

variable {α κ : Type} {key : α → κ} {sortKey : α → List Nat} {cap : Nat}
  {earlier later : View α} {k : κ}

/-- The section as it is collected. -/
def raw (v : View α) : Option (List α) :=
  if v.collected then some (if v.fails then [] else v.shown) else none

/-- The section as it is saved. -/
def saved (sortKey : α → List Nat) (cap : Nat) (v : View α) : Option (List α) :=
  v.raw.map fun l => (sortOn sortKey l).take cap

/-- The saved snapshot shows the item: its listing worked, and it was not cut off. -/
def Kept (key : α → κ) (sortKey : α → List Nat) (cap : Nat) (v : View α) (k : κ) : Prop :=
  v.fails = false ∧ k ∈ ((sortOn sortKey v.shown).take cap).map key

/-- The item was there, and the saved snapshot does not show it. -/
def Missed (key : α → κ) (sortKey : α → List Nat) (cap : Nat) (v : View α) (k : κ) : Prop :=
  k ∈ v.shown.map key ∧ ¬Kept key sortKey cap v k

/-- When both calls collect the section: a listing that works shows nothing that was missed
before, and when it fails, nothing that was shown is still there. -/
def Comparable (key : α → κ) (sortKey : α → List Nat) (cap : Nat) (earlier later : View α) :
    Prop :=
  earlier.collected = true → later.collected = true →
    ∀ k ∈ later.shown.map key,
      (later.fails = false → ¬Missed key sortKey cap earlier k) ∧
      (later.fails = true → ¬Kept key sortKey cap earlier k)

theorem mem_addedKeys [DecidableEq κ] {prev next : List α} :
    k ∈ addedKeys key prev next ↔ k ∈ next.map key ∧ k ∉ prev.map key := by
  unfold addedKeys
  constructor
  · intro h
    obtain ⟨a, ha, rfl⟩ := List.mem_map.mp h
    obtain ⟨hnext, hprev⟩ := List.mem_filter.mp ha
    exact ⟨List.mem_map_of_mem hnext, of_decide_eq_true hprev⟩
  · rintro ⟨hnext, hprev⟩
    obtain ⟨a, ha, rfl⟩ := List.mem_map.mp hnext
    exact List.mem_map_of_mem (List.mem_filter.mpr ⟨ha, decide_eq_true hprev⟩)

theorem removedKeys_eq [DecidableEq κ] (prev next : List α) :
    removedKeys key prev next = addedKeys key next prev :=
  rfl

/-- What the saved section shows is what was kept. -/
theorem mem_saved {l : List α} (h : earlier.saved sortKey cap = some l) :
    k ∈ l.map key ↔ Kept key sortKey cap earlier k := by
  obtain ⟨m, hraw, rfl⟩ := Option.map_eq_some_iff.mp h
  unfold raw at hraw
  split at hraw
  · cases hraw
    unfold Kept
    cases earlier.fails with
    | true => simp
    | false => simp
  · cases hraw

theorem mem_raw {l : List α} (h : later.raw = some l) :
    k ∈ l.map key ↔ later.fails = false ∧ k ∈ later.shown.map key := by
  unfold raw at h
  split at h
  · cases h
    cases later.fails with
    | true => simp
    | false => simp
  · cases h

/-- What is reported as new was not there before, and what is reported as gone is not
there any more, exactly when the section is comparable. -/
theorem honest_iff [DecidableEq κ] :
    (∀ prev next, earlier.saved sortKey cap = some prev → later.raw = some next →
      (∀ k ∈ addedKeys key prev next, k ∉ earlier.shown.map key) ∧
      (∀ k ∈ removedKeys key prev next, k ∉ later.shown.map key)) ↔
    Comparable key sortKey cap earlier later := by
  constructor
  · intro h hearlier hlater k hk
    obtain ⟨prev, hprev⟩ : ∃ prev, earlier.saved sortKey cap = some prev := by
      unfold saved raw
      rw [if_pos hearlier]
      exact ⟨_, rfl⟩
    obtain ⟨next, hnext⟩ : ∃ next, later.raw = some next := by
      unfold raw
      rw [if_pos hlater]
      exact ⟨_, rfl⟩
    obtain ⟨hadded, hremoved⟩ := h prev next hprev hnext
    constructor
    · rintro hworks ⟨hshown, hnot⟩
      refine hadded k (mem_addedKeys.mpr ⟨(mem_raw hnext).mpr ⟨hworks, hk⟩, ?_⟩) hshown
      rw [mem_saved hprev]
      exact hnot
    · intro hfails hkept
      refine hremoved k ?_ hk
      rw [removedKeys_eq]
      refine mem_addedKeys.mpr ⟨(mem_saved hprev).mpr hkept, ?_⟩
      rw [mem_raw hnext, hfails]
      exact fun h => Bool.noConfusion h.1
  · intro h prev next hprev hnext
    have hearlier : earlier.collected = true := by
      by_contra hnot
      unfold saved raw at hprev
      rw [if_neg hnot] at hprev
      cases hprev
    have hlater : later.collected = true := by
      by_contra hnot
      unfold raw at hnext
      rw [if_neg hnot] at hnext
      cases hnext
    constructor
    · intro k hk hshown
      obtain ⟨hin, hout⟩ := mem_addedKeys.mp hk
      rw [mem_raw hnext] at hin
      rw [mem_saved hprev] at hout
      exact (h hearlier hlater k hin.2).1 hin.1 ⟨hshown, hout⟩
    · intro k hk hshown
      rw [removedKeys_eq] at hk
      obtain ⟨hin, hout⟩ := mem_addedKeys.mp hk
      rw [mem_saved hprev] at hin
      rw [mem_raw hnext] at hout
      refine (h hearlier hlater k hshown).2 ?_ hin
      by_contra hworks
      exact hout ⟨Bool.eq_false_iff.mpr hworks, hshown⟩

end View

/-! ## The sections of a call -/

namespace Call

def containersView (c : Call) : View GuestEntry :=
  ⟨c.collects .containers, c.pctList.fails, c.containersShown⟩

def vmsView (c : Call) : View GuestEntry :=
  ⟨c.collects .vms, c.qmList.fails, c.vmsShown⟩

def storageView (c : Call) : View StorageInfo :=
  ⟨c.collects .storage, c.pvesmStatus.fails, c.storageShown⟩

end Call

theorem collectSection_fst {α β : Type} (c : Call) (s : CensusSection) (key : Str)
    (parser : Str → List α) (entry : α → β) (l : Listing) :
    (collectSection c s key parser entry l).1 =
      (View.mk (c.collects s) l.fails ((parser l.shown).map entry)).raw := by
  unfold collectSection View.raw
  split
  · dsimp only
    rw [Listing.runProbe_fst]
    split
    · rfl
    · rfl
  · rfl

theorem collect_sections (c : Call) :
    (collect c).sections = ⟨c.storageView.raw, c.containersView.raw, c.vmsView.raw⟩ := by
  unfold collect
  simp only [collectSection_fst, List.map_id]
  rfl

theorem capSection_fst {α : Type} (cap : Nat) (s : CensusSection) (items : Option (List α)) :
    (capSection cap s items).1 = items.map (List.take cap) := by
  unfold capSection
  cases items with
  | none => rfl
  | some l =>
    dsimp only
    split
    · rfl
    · next h =>
      rw [Option.map_some, List.take_of_length_le (Nat.not_lt.mp h)]

theorem snapshotOf_sections (c : Call) :
    (snapshotOf setup c).sections =
      ⟨c.storageView.saved (nameKey setup) c.maxItemsPerSection,
        c.containersView.saved vmidKey c.maxItemsPerSection,
        c.vmsView.saved vmidKey c.maxItemsPerSection⟩ := by
  unfold snapshotOf finalizeInventory
  simp only [capSection_fst, collect_sections, Option.map_map]
  rfl

/-! ## One comparison -/

/-- What is new was not there before, and what is gone is not there any more. -/
def ItemsHonest {κ : Type} (before now added removed : List κ) : Prop :=
  (∀ k ∈ added, k ∉ before) ∧ ∀ k ∈ removed, k ∉ now

/-- A report on what changed between two calls is honest. -/
structure Honest (earlier later : Call) (drift : DriftReport) : Prop where
  containers : ItemsHonest (earlier.containersShown.map GuestEntry.vmid)
    (later.containersShown.map GuestEntry.vmid) drift.containers.added drift.containers.removed
  vms : ItemsHonest (earlier.vmsShown.map GuestEntry.vmid)
    (later.vmsShown.map GuestEntry.vmid) drift.vms.added drift.vms.removed
  storage : ItemsHonest (earlier.storageShown.map StorageInfo.name)
    (later.storageShown.map StorageInfo.name) drift.storage.added drift.storage.removed

/-- The sections of two calls are comparable. -/
structure CallsComparable (setup : Setup) (earlier later : Call) : Prop where
  containers : View.Comparable GuestEntry.vmid vmidKey earlier.maxItemsPerSection
    earlier.containersView later.containersView
  vms : View.Comparable GuestEntry.vmid vmidKey earlier.maxItemsPerSection earlier.vmsView
    later.vmsView
  storage : View.Comparable StorageInfo.name (nameKey setup) earlier.maxItemsPerSection
    earlier.storageView later.storageView

theorem guests_honest_iff {before now : List Nat} {prev next : Option (List GuestEntry)} :
    ItemsHonest before now
        (bothObserved ⟨[], [], []⟩ (fun p n => diffGuests p n false) prev next).added
        (bothObserved ⟨[], [], []⟩ (fun p n => diffGuests p n false) prev next).removed ↔
      ∀ p n, prev = some p → next = some n →
        ItemsHonest before now (addedKeys GuestEntry.vmid p n) (removedKeys GuestEntry.vmid p n) := by
  cases prev with
  | none => exact iff_of_true ⟨nofun, nofun⟩ nofun
  | some p =>
    cases next with
    | none => exact iff_of_true ⟨nofun, nofun⟩ nofun
    | some n =>
      refine ⟨?_, fun h => h p n rfl rfl⟩
      rintro h _ _ ⟨⟩ ⟨⟩
      exact h

theorem storage_honest_iff {before now : List Str} {prev next : Option (List StorageInfo)} :
    ItemsHonest before now (bothObserved ⟨[], [], []⟩ (diffStorage setup) prev next).added
        (bothObserved ⟨[], [], []⟩ (diffStorage setup) prev next).removed ↔
      ∀ p n, prev = some p → next = some n →
        ItemsHonest before now (addedKeys StorageInfo.name p n)
          (removedKeys StorageInfo.name p n) := by
  cases prev with
  | none => exact iff_of_true ⟨nofun, nofun⟩ nofun
  | some p =>
    cases next with
    | none => exact iff_of_true ⟨nofun, nofun⟩ nofun
    | some n =>
      refine ⟨?_, fun h => h p n rfl rfl⟩
      rintro h _ _ ⟨⟩ ⟨⟩
      exact h

/-- The report on a saved snapshot and what is collected now. -/
theorem honest_diff_iff {earlier later : Call} :
    Honest earlier later (diffSnapshots setup (snapshotOf setup earlier) (collect later)) ↔
      CallsComparable setup earlier later := by
  have hdiff : diffSnapshots setup (snapshotOf setup earlier) (collect later) =
      { containers := bothObserved ⟨[], [], []⟩ (fun p n => diffGuests p n false)
          (earlier.containersView.saved vmidKey earlier.maxItemsPerSection)
          later.containersView.raw
        vms := bothObserved ⟨[], [], []⟩ (fun p n => diffGuests p n false)
          (earlier.vmsView.saved vmidKey earlier.maxItemsPerSection) later.vmsView.raw
        storage := bothObserved ⟨[], [], []⟩ (diffStorage setup)
          (earlier.storageView.saved (nameKey setup) earlier.maxItemsPerSection)
          later.storageView.raw
        comparedTo := earlier.ts
        schemaMismatch := false } := by
    have hschema : (snapshotOf setup earlier).schemaVersion = (collect later).schemaVersion := rfl
    unfold diffSnapshots
    dsimp only
    rw [snapshotOf_sections, collect_sections, if_neg fun hne => hne hschema]
    rfl
  rw [hdiff]
  constructor
  · rintro ⟨hcontainers, hvms, hstorage⟩
    exact ⟨View.honest_iff.mp (guests_honest_iff.mp hcontainers),
      View.honest_iff.mp (guests_honest_iff.mp hvms),
      View.honest_iff.mp (storage_honest_iff.mp hstorage)⟩
  · rintro ⟨hcontainers, hvms, hstorage⟩
    exact ⟨guests_honest_iff.mpr (View.honest_iff.mpr hcontainers),
      guests_honest_iff.mpr (View.honest_iff.mpr hvms),
      storage_honest_iff.mpr (View.honest_iff.mpr hstorage)⟩

/-! ## The store -/

/-- The call saves its snapshot. -/
def Call.saves (c : Call) : Bool :=
  c.saveSnapshot && !c.budgetHit

/-- The last call that wrote the file of a time. -/
def takenAt (run : List Call) (ts : Str) : Option Call :=
  run.reverse.find? fun c => c.saves && decide (fileName c.ts = fileName ts)

theorem takenAt_append (run : List Call) (c : Call) (ts : Str) :
    takenAt (run ++ [c]) ts =
      if c.saves = true ∧ fileName c.ts = fileName ts then some c else takenAt run ts := by
  unfold takenAt
  rw [List.reverse_append, List.reverse_singleton, List.singleton_append, List.find?_cons]
  by_cases h : c.saves = true ∧ fileName c.ts = fileName ts
  · rw [if_pos h, h.1, h.2]
    simp
  · rw [if_neg h]
    split
    · next hfound => exact absurd (by simpa using hfound) h
    · rfl

theorem storeAfter_append (run : List Call) (c : Call) :
    storeAfter setup (run ++ [c]) =
      if c.saves then (storeAfter setup run).save setup (snapshotOf setup c)
      else storeAfter setup run := by
  unfold storeAfter
  rw [List.foldl_append]
  rfl

theorem runRetention_subset (store : CensusStore) : store.runRetention setup ⊆ store :=
  fun _ h => (List.mem_filter.mp h).1

theorem nodup_storeAfter (run : List Call) :
    ((storeAfter setup run).map Prod.fst).Nodup := by
  induction run using List.reverseRecOn with
  | nil => exact List.nodup_nil
  | append_singleton run c ih =>
    rw [storeAfter_append]
    split
    · exact (nodup_upsert ih).sublist (List.filter_sublist.map Prod.fst)
    · exact ih

/-- Every file is the snapshot of the last call that wrote it. -/
theorem snapshot_of_store {run : List Call} {f : Str × CensusSnapshot}
    (hf : f ∈ storeAfter setup run) :
    ∃ c, takenAt run c.ts = some c ∧ f = (fileName c.ts, snapshotOf setup c) := by
  induction run using List.reverseRecOn with
  | nil => cases hf
  | append_singleton run c ih =>
    rw [storeAfter_append] at hf
    have hold : ∀ d, takenAt run d.ts = some d →
        ¬(c.saves = true ∧ fileName c.ts = fileName d.ts) →
        takenAt (run ++ [c]) d.ts = some d := by
      intro d hd hne
      rw [takenAt_append, if_neg hne, hd]
    split at hf
    · next hsaves =>
      have hmem := runRetention_subset _ hf
      have hlookup := (lookup_eq_some_iff (nodup_upsert (nodup_storeAfter run))).mpr ⟨hmem, rfl⟩
      rw [lookup_upsert] at hlookup
      split at hlookup
      · refine ⟨c, ?_, (Option.some.inj hlookup).symm⟩
        rw [takenAt_append]
        exact if_pos ⟨hsaves, rfl⟩
      · next hne =>
        obtain ⟨d, hd, rfl⟩ := ih (mem_of_lookup hlookup)
        exact ⟨d, hold d hd fun h => hne h.2, rfl⟩
    · next hsaves =>
      obtain ⟨d, hd, rfl⟩ := ih hf
      exact ⟨d, hold d hd fun h => hsaves h.1, rfl⟩

/-- The snapshot that is loaded is that of the call that took it. -/
theorem loadLatest_storeAfter {run : List Call} {prev : CensusSnapshot}
    (h : (storeAfter setup run).loadLatest setup = some prev) :
    ∃ c, takenAt run prev.ts = some c ∧ prev = snapshotOf setup c := by
  obtain ⟨f, hhead, rfl⟩ := Option.map_eq_some_iff.mp h
  have hmem : f ∈ storeAfter setup run :=
    (sortDescOn_perm _ _).mem_iff.mp (List.mem_of_mem_head? hhead)
  obtain ⟨c, hc, rfl⟩ := snapshot_of_store hmem
  exact ⟨c, hc, rfl⟩

/-! ## Runs -/

/-- In a run, a call compares what it finds with the snapshot that `earlier` took. -/
def ComparesWith (setup : Setup) (run : List Call) (earlier later : Call) (drift : DriftReport) :
    Prop :=
  ∃ before after, run = before ++ later :: after ∧
    (describeHomelabHandler setup (storeAfter setup before) later).1 = some drift ∧
    takenAt before drift.comparedTo = some earlier

/-- Every drift report of the run is honest. -/
def DriftHonest (setup : Setup) (run : List Call) : Prop :=
  ∀ earlier later drift, ComparesWith setup run earlier later drift → Honest earlier later drift

theorem ComparesWith.drift_eq {run : List Call} {earlier later : Call} {drift : DriftReport}
    (h : ComparesWith setup run earlier later drift) :
    drift = diffSnapshots setup (snapshotOf setup earlier) (collect later) := by
  obtain ⟨before, after, -, hdrift, htaken⟩ := h
  obtain ⟨prev, hprev, rfl⟩ := Option.map_eq_some_iff.mp hdrift
  split at hprev
  · obtain ⟨c, hc, rfl⟩ := loadLatest_storeAfter hprev
    have hcompared : (diffSnapshots setup (snapshotOf setup c) (collect later)).comparedTo =
        (snapshotOf setup c).ts := by
      unfold diffSnapshots
      split
      · rfl
      · rfl
    rw [hcompared, hc] at htaken
    cases htaken
    rfl
  · cases hprev

/-- The drift reports of a run are honest exactly when the calls that are compared are
comparable in each section. -/
theorem drift_honest_iff (setup : Setup) (run : List Call) :
    DriftHonest setup run ↔
      ∀ earlier later drift, ComparesWith setup run earlier later drift →
        CallsComparable setup earlier later := by
  constructor
  · intro h earlier later drift hcompares
    have hhonest := h earlier later drift hcompares
    rw [hcompares.drift_eq] at hhonest
    exact honest_diff_iff.mp hhonest
  · intro h earlier later drift hcompares
    rw [hcompares.drift_eq]
    exact honest_diff_iff.mpr (h earlier later drift hcompares)

/-! ## A listing that fails -/

def workingListing (shown : Str) : Listing where
  shown := shown
  answer := .ok ⟨shown, [], some 0⟩
  faithful := fun _ h => (Except.ok.inj h).symm

def failingListing (shown : Str) : Listing where
  shown := shown
  answer := .error "Command timed out".toList
  faithful := nofun

def homelabSetup : Setup where
  collationKey := codeUnits
  usageChange := fun _ _ => none
  retentionCap := 30
  fileSize := fun _ => 0

/-- A call to a node with one container. -/
def oneContainerCall (ts : Str) (pctList : Listing) : Call where
  ts := ts
  requested := [.containers]
  outOfTimeIn := none
  pctList := pctList
  qmList := workingListing []
  pvesmStatus := workingListing []
  capability := fun _ => none
  maxItemsPerSection := 200
  saveSnapshot := true
  compareToPrevious := true

def oneContainer : Str := "VMID Status Lock Name\n100 running web".toList

/-- The container is listed by the first call and not by the second, whose probe fails. -/
theorem not_drift_honest :
    ¬DriftHonest homelabSetup
      [oneContainerCall "2026-01-01T00:00:00.000Z".toList (workingListing oneContainer),
        oneContainerCall "2026-01-02T00:00:00.000Z".toList (failingListing oneContainer)] := by
  intro h
  have hhonest := h _ _ _ ⟨[oneContainerCall "2026-01-01T00:00:00.000Z".toList
    (workingListing oneContainer)], [], rfl, rfl, rfl⟩
  have hremoved := hhonest.containers.2 100 (by decide +kernel)
  exact hremoved (by decide +kernel)

end HomelabMcp.Census
