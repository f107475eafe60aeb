import HomelabMcp.Guests.BackupTools

/-!
# Retention of archives

`fence b` follows a run of `guest_backup` and states when it may delete: once the
new backup is complete, and was found in a listing made after that.

- `guestBackup_retention`: every run keeps to the fence; what is deleted is the
  plan for the fresh listing, and nothing unless the backup was completed.
-/

namespace HomelabMcp.Guests

open SlashPath Text Audit Program Tools

/-- The node is asked how the task of a backup fares; otherwise `createBackup`
returns only when the archive is complete. -/
def Node.Polls (node : Node) : Prop :=
  node.kind = .api ∧ node.offersTaskStatus = true

/-- The backup that a run makes. -/
structure NewBackup where
  node : Node
  storage : Str
  vmid : Nat
  note : Str

def newBackup (cfg : BackupToolsConfig) (node : Node) (input : GuestBackupInput) (now : Instant) :
    NewBackup :=
  ⟨node, input.storage.getD cfg.nodeBackupStorage, input.vmid, generateBackupNote now input.note⟩

/-- What a run did so far. -/
structure BackupLedger where
  /-- The listings of the guest's archives before `createBackup` returned, and after. -/
  before : Option (List BackupArchive) := none
  created : Option Str := none
  /-- The task stopped with `OK`. -/
  finished : Bool := false
  fresh : Option (List BackupArchive) := none
  /-- The deletions asked for, and which of them succeeded. -/
  deletes : List (Str × Bool) := []

/-- The server's archives of the fresh listing that are still there. -/
def BackupLedger.left (s : BackupLedger) (fresh : List BackupArchive) : List BackupArchive :=
  fresh.filter fun a => isMcpArchive a.notes && decide ((a.volid, true) ∉ s.deletes)

namespace NewBackup

variable (b : NewBackup)

/-- The archive has the note of the new backup. -/
def Carries (a : BackupArchive) : Prop :=
  a.notes.map trim = some b.note

def next (s : BackupLedger) : (c : BackupCall) → BackupAnswer c → BackupLedger
  | .op (.createBackup _ _ _), .ok upid => { s with created := some upid }
  | .op (.taskStatus upid), .ok st =>
    if s.created = some upid ∧ st.status = stopped ∧ st.exitstatus = some "OK".toList then
      { s with finished := true }
    else s
  | .op (.listBackupArchives storage vmid), .ok list =>
    if storage = b.storage ∧ vmid = b.vmid then
      if s.created = none then { s with before := some list } else { s with fresh := some list }
    else s
  | .op (.deleteBackupArchive _ volid), answer =>
    { s with deletes := s.deletes ++ [(volid, answer.isOk)] }
  | _, _ => s

/-- The new backup has been completed. -/
def Complete (s : BackupLedger) : Prop :=
  s.created ≠ none ∧ (b.node.Polls → s.finished = true)

/-- The fresh listing shows the new backup under the volume id `found`. -/
def FoundAs (fresh : List BackupArchive) (found : Str) : Prop :=
  ∃ a ∈ fresh, a.volid = found ∧ b.Carries a

/-- When `volid` may be deleted. -/
def MayDelete (s : BackupLedger) (volid : Str) : Prop :=
  b.Complete s ∧ ∃ fresh found, s.fresh = some fresh ∧ b.FoundAs fresh found ∧ volid ≠ found ∧
    ∃ a ∈ fresh, a.volid = volid ∧ isMcpArchive a.notes = true

/-- Deletes on the storage of the new backup, and only when `MayDelete` says so. -/
def fence : Monitor BackupCall BackupAnswer BackupLedger where
  next := b.next
  allowed s c :=
    ∀ storage volid, c = .op (.deleteBackupArchive storage volid) →
      storage = b.storage ∧ b.MayDelete s volid

/-- What a run has deleted when it ends: nothing, or the plan for the fresh listing
in which the new backup was found. -/
def Retires (collation : Str → List Nat) (cap : Int) (s : BackupLedger)
    (o : Outcome Str GuestBackupResult) : Prop :=
  (s.deletes = [] ∧ ∀ r, o = .returned r → r.volid = none) ∨
    ∃ r found fresh, o = .returned r ∧ r.status = .completed ∧ r.volid = some found ∧
      s.fresh = some fresh ∧ b.FoundAs fresh found ∧
      s.deletes.map Prod.fst = planPostCreateEviction collation (fresh.map toInfo) found cap

end NewBackup

section
variable {b : NewBackup} {s : BackupLedger}

theorem meets_resolveType {vmid : Nat} {post : BackupLedger → Outcome Str NodeGuestType → Prop}
    (hreturned : ∀ type, post s (.returned type)) (hthrown : ∀ e, post s (.thrown e)) :
    b.fence.Meets post s (resolveType vmid) := by
  unfold resolveType
  rw [Monitor.meets_bind, meets_perform]
  refine ⟨nofun, fun guests => ?_, hthrown⟩
  show b.fence.Meets post s _
  beta_reduce
  cases guests.find? fun g => g.vmid == vmid with
  | none => exact hthrown _
  | some g => exact hreturned g.type

/-- With the new order nothing happens on the storage before the backup is made. -/
theorem meets_prepareStorage {collation : Str → List Nat} {cfg : BackupToolsConfig}
    {input : GuestBackupInput} {storage : Str} {before : List ArchiveInfo}
    {post : BackupLedger → Outcome Str (List Str × List Str) → Prop}
    (hevict : input.evictBeforeCreate = false)
    (hreturned : ∀ warnings, post s (.returned (warnings, [])))
    (hthrown : ∀ e, post s (.thrown e)) :
    b.fence.Meets post s (prepareStorage collation cfg input storage before) := by
  unfold prepareStorage
  simp only [hevict, Bool.false_eq_true, if_false]
  rw [Monitor.meets_ite]
  refine ⟨fun _ => ?_, fun _ => hreturned []⟩
  rw [Monitor.meets_bind, Monitor.meets_ask]
  refine ⟨nofun, fun answer => ?_⟩
  -- Whatever the node knows of the storage, the verdict is one of three.
  show b.fence.Meets post s _
  beta_reduce
  cases (checkBackupHeadroom before _).verdict with
  | insufficient => exact hthrown _
  | unknown => exact hreturned _
  | ok => exact hreturned []

/-- Polling only tells how the task ended. -/
theorem meets_pollBackupTask {upid : Str} {timeoutMs : Nat} (polls : Nat) (lastError : Option Str)
    (s : BackupLedger) (hcreated : s.created = some upid) :
    b.fence.Meets (fun t o => ∃ state text finished, o = .returned (state, text) ∧
        t = { s with finished } ∧ (state = .ok → finished = true))
      s (pollBackupTask upid timeoutMs polls lastError) := by
  induction polls generalizing s lastError with
  | zero => exact ⟨.pending, _, s.finished, rfl, rfl, nofun⟩
  | succ polls ih =>
    unfold pollBackupTask
    rw [Monitor.meets_bind, Monitor.meets_ask]
    refine ⟨nofun, fun answer => ?_⟩
    cases answer with
    | error e => exact ih (some e) s hcreated
    | ok st =>
      show b.fence.Meets _ (if _ then _ else s) (if st.status = stopped then _ else _)
      by_cases hstopped : st.status = stopped
      · rw [if_pos hstopped]
        by_cases hexit : st.exitstatus = some "OK".toList
        · rw [if_pos ⟨hcreated, hstopped, hexit⟩]
          exact ⟨_, _, true, rfl, rfl, fun _ => rfl⟩
        · rw [if_neg fun h => hexit h.2.2]
          refine ⟨_, _, s.finished, rfl, rfl, fun hok => ?_⟩
          -- `unknown`, which stands for a missing exit status, is not `OK`.
          cases hst : st.exitstatus with
          | none =>
            rw [hst] at hok
            exact absurd hok (by decide)
          | some exitstatus =>
            rw [hst] at hok hexit
            rw [Option.getD_some, if_neg fun h => hexit (congrArg some h)] at hok
            cases hok
      · rw [if_neg fun h => hstopped h.2.1, if_neg hstopped]
        exact ih none s hcreated

/-- The loop of deletions asks for each, in order. -/
theorem meets_evictArchives {storage : Str} (volids : List Str) (s : BackupLedger)
    (hstorage : storage = b.storage) (hmay : ∀ v ∈ volids, b.MayDelete s v) :
    b.fence.Meets (fun t o => ∃ more r, o = .returned r ∧
        t = { s with deletes := s.deletes ++ more } ∧ more.map Prod.fst = volids)
      s (evictArchives storage volids) := by
  induction volids generalizing s with
  | nil => exact ⟨[], ([], []), rfl, by rw [List.append_nil], rfl⟩
  | cons volid rest ih =>
    unfold evictArchives
    rw [Monitor.meets_bind, Monitor.meets_ask]
    constructor
    · rintro storage' volid' ⟨⟩
      exact ⟨hstorage, hmay volid List.mem_cons_self⟩
    · intro answer
      show b.fence.Meets _ { s with deletes := s.deletes ++ [(volid, answer.isOk)] } (_ >>= _)
      rw [Monitor.meets_bind]
      refine (ih { s with deletes := s.deletes ++ [(volid, answer.isOk)] }
        fun v hv => hmay v (List.mem_cons_of_mem volid hv)).mono ?_
      rintro t o ⟨more, ⟨evicted, errors⟩, rfl, rfl, hmore⟩
      have hdeletes : ∃ more', ({ s with deletes := s.deletes ++ [(volid, answer.isOk)] ++ more } :
          BackupLedger) = { s with deletes := s.deletes ++ more' } ∧
          more'.map Prod.fst = volid :: rest :=
        ⟨(volid, answer.isOk) :: more, by rw [List.append_assoc]; rfl, by rw [List.map_cons, hmore]⟩
      obtain ⟨more', heq, hmap⟩ := hdeletes
      show b.fence.Meets _ _ _
      beta_reduce
      cases answer with
      | ok _ => exact ⟨more', _, rfl, heq, hmap⟩
      | error e => exact ⟨more', _, rfl, heq, hmap⟩

/-- What the re-listing finds carries the note of the new backup. -/
theorem foundAs_of_mine {list : List BackupArchive} {found : Str}
    (h : (mine b.note (list.map toInfo)).head?.map (fun a => a.volid) = some found) :
    b.FoundAs list found := by
  obtain ⟨info, hhead, rfl⟩ := Option.map_eq_some_iff.mp h
  have hmem : info ∈ mine b.note (list.map toInfo) := List.mem_of_head? hhead
  unfold mine at hmem
  rw [List.mem_insertionSort, List.mem_filter, decide_eq_true_eq] at hmem
  obtain ⟨⟨a, ha, rfl⟩, hnote⟩ := hmem.imp_left List.mem_map.mp
  exact ⟨a, ha, rfl, hnote⟩

/-- The plan for a fresh listing is within the fence. -/
theorem mayDelete_of_plan {collation : Str → List Nat} {cap : Int} {list : List BackupArchive}
    {found volid : Str} (hcomplete : b.Complete s) (hfresh : s.fresh = some list)
    (hfound : b.FoundAs list found)
    (h : volid ∈ planPostCreateEviction collation (list.map toInfo) found cap) :
    b.MayDelete s volid := by
  obtain ⟨hne, info, hmem, hvolid, hmcp⟩ := mem_planPostCreateEviction h
  obtain ⟨a, ha, rfl⟩ := List.mem_map.mp hmem
  exact ⟨hcomplete, list, found, hfresh, hfound, hne, a, ha, hvolid, hmcp⟩

/-- Retention, once the backup is complete. -/
theorem meets_retireAndRecord {collation : Str → List Nat} {cfg : BackupToolsConfig}
    {input : GuestBackupInput} {type : NodeGuestType} {upid taskStatus : Str}
    {planned warnings : List Str} (hvmid : b.vmid = input.vmid) (hcomplete : b.Complete s)
    (hdeletes : s.deletes = []) :
    b.fence.Meets (b.Retires collation cfg.guestArchivePerGuestCap) s
      (retireAndRecord collation cfg b.node input type b.storage b.note upid taskStatus planned []
        warnings) := by
  unfold retireAndRecord findNewArchive
  rw [Monitor.meets_bind, Monitor.meets_bind, Monitor.meets_ask]
  refine ⟨nofun, fun answer => ?_⟩
  cases answer with
  | error e =>
    -- Without a listing the new archive is not confirmed: all stay.
    refine ⟨nofun, fun _ => Or.inl ⟨hdeletes, ?_⟩⟩
    rintro r ⟨⟩
    rfl
  | ok list =>
    show b.fence.Meets _ (if b.storage = b.storage ∧ input.vmid = b.vmid then
      if s.created = none then _ else _ else _) _
    rw [if_pos ⟨rfl, hvmid.symm⟩, if_neg hcomplete.1]
    show b.fence.Meets _ { s with fresh := some list } _
    dsimp only
    cases hfound : (mine b.note (list.map toInfo)).head?.map fun a => a.volid with
    | none =>
      refine ⟨nofun, fun _ => Or.inl ⟨hdeletes, ?_⟩⟩
      rintro r ⟨⟩
      rfl
    | some found =>
      have hfoundAs := foundAs_of_mine hfound
      show b.fence.Meets _ _ (evictArchives _ _ >>= _)
      rw [Monitor.meets_bind]
      refine (meets_evictArchives _ { s with fresh := some list } rfl fun v hv =>
        mayDelete_of_plan hcomplete rfl hfoundAs hv).mono ?_
      rintro t o ⟨more, ⟨evicted, errors⟩, rfl, rfl, hmore⟩
      refine ⟨nofun, fun _ => Or.inr ⟨_, found, list, rfl, rfl, rfl, rfl, hfoundAs, ?_⟩⟩
      show (s.deletes ++ more).map Prod.fst = _
      rw [hdeletes, List.nil_append, hmore]

/-- A run of `guest_backup` in the new order keeps to the fence. -/
theorem meets_guestBackupHandler (collation : Str → List Nat) (cfg : BackupToolsConfig)
    (node : Node) (input : GuestBackupInput) (now : Instant)
    (hevict : input.evictBeforeCreate = false) :
    (newBackup cfg node input now).fence.Meets
      ((newBackup cfg node input now).Retires collation cfg.guestArchivePerGuestCap) {}
      (guestBackupHandler collation cfg node input now) := by
  set b := newBackup cfg node input now with hb
  have hthrown : ∀ {t : BackupLedger} (e : Str), t.deletes = [] →
      b.Retires collation cfg.guestArchivePerGuestCap t (.thrown e) :=
    fun e h => Or.inl ⟨h, nofun⟩
  unfold guestBackupHandler
  dsimp only
  rw [Monitor.meets_ite]
  refine ⟨fun _ => hthrown _ rfl, fun _ => ?_⟩
  rw [Monitor.meets_ite]
  refine ⟨fun _ => hthrown _ rfl, fun _ => ?_⟩
  rw [Monitor.meets_bind]
  refine meets_resolveType (fun type => ?_) fun e => hthrown e rfl
  show b.fence.Meets _ _ (perform _ >>= _)
  rw [Monitor.meets_bind, meets_perform]
  refine ⟨nofun, fun listed => ?_, fun e => hthrown e rfl⟩
  show b.fence.Meets _ (if b.storage = b.storage ∧ b.vmid = b.vmid then _ else _) _
  rw [if_pos ⟨rfl, rfl⟩]
  show b.fence.Meets _ { before := some listed } (prepareStorage _ _ _ _ _ >>= _)
  rw [Monitor.meets_bind]
  refine meets_prepareStorage hevict (fun warnings => ?_) fun e => hthrown e rfl
  show b.fence.Meets _ _ (ask _ >>= _)
  rw [Monitor.meets_bind, Monitor.meets_ask]
  refine ⟨nofun, fun created => ?_⟩
  cases created with
  | error e => exact ⟨nofun, fun _ => hthrown _ rfl⟩
  | ok upid =>
    show b.fence.Meets _ { before := some listed, created := some upid } (if _ then _ else _)
    by_cases hpolls : node.kind = .api ∧ node.offersTaskStatus = true
    · rw [if_pos hpolls, Monitor.meets_bind]
      refine (meets_pollBackupTask _ none _ rfl).mono ?_
      rintro t o ⟨state, text, finished, rfl, rfl, hfinished⟩
      cases state with
      | failed => exact ⟨nofun, fun _ => hthrown _ rfl⟩
      | pending =>
        refine ⟨nofun, fun _ => Or.inl ⟨rfl, ?_⟩⟩
        rintro r ⟨⟩
        rfl
      | ok =>
        exact meets_retireAndRecord (b := b) rfl
          ⟨Option.some_ne_none upid, fun _ => hfinished rfl⟩ rfl
    · rw [if_neg hpolls]
      exact meets_retireAndRecord (b := b) rfl
        ⟨Option.some_ne_none upid, fun h => absurd h hpolls⟩ rfl

end

/-- What some events did. -/
def NewBackup.ledgerOf (b : NewBackup) (events : List (Event BackupCall BackupAnswer)) :
    BackupLedger :=
  b.fence.after {} events

/-- Where every deletion succeeds, no more of the server's archives are left than the
cap allows, and none of them but the new one is older than one that is gone. -/
theorem left_of_plan {collation : Str → List Nat} {cap : Int} {s : BackupLedger}
    {fresh : List BackupArchive} {found : Str} (hnd : (fresh.map fun a => a.volid).Nodup)
    (hplan : s.deletes.map Prod.fst = planPostCreateEviction collation (fresh.map toInfo) found cap)
    (hsucceeded : ∀ d ∈ s.deletes, d.2 = true) :
    ((s.left fresh).length : Int) ≤ max 1 cap ∧
      ∀ a ∈ s.left fresh, a.volid ≠ found → ∀ gone ∈ fresh, (gone.volid, true) ∈ s.deletes →
        newestFirst collation (toInfo a) (toInfo gone) := by
  have hgone : ∀ v, (v, true) ∈ s.deletes ↔
      v ∈ planPostCreateEviction collation (fresh.map toInfo) found cap := by
    intro v
    rw [← hplan, List.mem_map]
    constructor
    · exact fun h => ⟨(v, true), h, rfl⟩
    · rintro ⟨⟨v', succeeded⟩, h, rfl⟩
      have htrue : succeeded = true := hsucceeded _ h
      exact htrue ▸ h
  have hnd' : ((fresh.map toInfo).map fun a => a.volid).Nodup := by
    rw [List.map_map]
    exact hnd
  have hleft : managedLeft (fresh.map toInfo)
      (planPostCreateEviction collation (fresh.map toInfo) found cap) =
      (s.left fresh).map toInfo := by
    unfold managedLeft BackupLedger.left
    rw [List.filter_map]
    congr 1
    refine List.filter_congr fun a _ => ?_
    show (isMcpArchive a.notes && decide (a.volid ∉ _)) = _
    exact congrArg _ (decide_eq_decide.mpr (not_congr (hgone a.volid).symm))
  constructor
  · rw [← List.length_map toInfo, ← hleft]
    exact length_managedLeft_le hnd'
  · intro a ha hne gone hmem hdeleted
    refine newestFirst_of_evicted hnd' (List.mem_map_of_mem hmem) ?_ hne ((hgone _).mp hdeleted)
    rw [hleft]
    exact List.mem_map_of_mem ha

/-- Retention of archives, over every run of `guest_backup` in the new order. -/
theorem guestBackup_retention (collation : Str → List Nat) (cfg : BackupToolsConfig) (node : Node)
    (input : GuestBackupInput) (now : Instant) (w : Nat → (c : BackupCall) → BackupAnswer c)
    (hevict : input.evictBeforeCreate = false) :
    let b := newBackup cfg node input now
    let events := (run w 0 (guestBackupHandler collation cfg node input now)).1
    let outcome := (run w 0 (guestBackupHandler collation cfg node input now)).2
    let s := b.ledgerOf events
    b.fence.Allows {} events ∧
      -- A failed or pending run, or one that does not find the new archive.
      ((∀ r, outcome = .returned r → r.status ≠ .completed ∨ r.volid = none) → s.deletes = []) ∧
      -- The archive that was made is the only one with its note to appear meanwhile.
      (∀ before fresh new, s.before = some before → s.fresh = some fresh →
        (∀ a ∈ before, ¬b.Carries a) →
        (∀ a ∈ fresh, b.Carries a → a ∈ before ∨ a.volid = new) → ∀ d ∈ s.deletes, d.1 ≠ new) ∧
      ∀ r found, outcome = .returned r → r.volid = some found →
        (∀ d ∈ s.deletes, d.2 = true) →
        ∃ fresh, s.fresh = some fresh ∧ b.FoundAs fresh found ∧
          ((fresh.map fun a => a.volid).Nodup →
            ((s.left fresh).length : Int) ≤ max 1 cfg.guestArchivePerGuestCap ∧
            ∀ a ∈ s.left fresh, a.volid ≠ found →
              ∀ gone ∈ fresh, (gone.volid, true) ∈ s.deletes →
                newestFirst collation (toInfo a) (toInfo gone)) := by
  intro b events outcome s
  obtain ⟨hallows, hretires⟩ :=
    (meets_guestBackupHandler collation cfg node input now hevict).run w 0
  refine ⟨hallows, ?_⟩
  rcases hretires with ⟨hnone, hvolid⟩ |
    ⟨r, found, fresh, hreturned, hcompleted, hvolid, hfresh, hfound, hplan⟩
  · have hdeletes : s.deletes = [] := hnone
    refine ⟨fun _ => hdeletes, fun before fresh new _ _ _ _ d hd => ?_, fun r found hr hsome => ?_⟩
    · rw [hdeletes] at hd
      cases hd
    · rw [hvolid r hr] at hsome
      cases hsome
  · refine ⟨fun h => ?_, fun before fresh' new hbefore hfresh' hbefore' honly d hd => ?_,
      fun r' found' hr' hfound' hsucceeded => ?_⟩
    · rcases h r hreturned with hne | hne
      · exact absurd hcompleted hne
      · rw [hvolid] at hne
        cases hne
    · -- The archive that was found carries the note, so it is the new one.
      obtain rfl : fresh = fresh' := Option.some.inj (hfresh.symm.trans hfresh')
      obtain ⟨a, ha, rfl, hcarries⟩ := hfound
      have hplanned : d.1 ∈ planPostCreateEviction collation (fresh.map toInfo) a.volid
          cfg.guestArchivePerGuestCap := hplan ▸ List.mem_map_of_mem hd
      rcases honly a ha hcarries with hold | hnew
      · exact absurd hcarries (hbefore' a hold)
      · exact hnew ▸ (mem_planPostCreateEviction hplanned).1
    · obtain rfl : r = r' := Outcome.returned.inj (hreturned.symm.trans hr')
      obtain rfl : found = found' := Option.some.inj (hvolid.symm.trans hfound')
      exact ⟨fresh, hfresh, hfound, fun hnd => left_of_plan hnd hplan hsucceeded⟩

/-! ## Two runs -/

/-- An archive with a blank before its `mcp-` mark. -/
def indentedArchive : BackupArchive :=
  ⟨"local:backup/a".toList, 105, some 1, none, some " mcp-old".toList, none⟩

def markedArchive : BackupArchive :=
  { indentedArchive with notes := some "mcp-old".toList }

/-- An ssh node with one old archive; `relisted` is its second listing. -/
def oneArchive (old : BackupArchive) (relisted : Except Str (List BackupArchive)) :
    Nat → (c : BackupCall) → BackupAnswer c
  | _, .op .listGuests => .ok [⟨105, .lxc⟩]
  | n, .op (.listBackupArchives _ _) => if n = 1 then .ok [old] else relisted
  | _, .op .storageStatus => .ok []
  | _, .op (.guestStatus _ _) | _, .op (.startGuest _ _) | _, .op (.stopGuest _ _)
  | _, .op (.createBackup _ _ _) | _, .op (.restoreBackup _ _ _)
  | _, .op (.deleteBackupArchive _ _) => .ok []
  | _, .op (.taskStatus _) => .ok ⟨stopped, some "OK".toList⟩
  | _, .append _ => ()
  | _, .check _ | _, .peek _ => ⟨false, 1, 3, 600000⟩
  | _, .clock => 0

def sshNode : Node := ⟨.ssh, false⟩

def capOne : BackupToolsConfig := ⟨"pve".toList, "local".toList, 1, 2000, 1800000⟩

def backup105 : GuestBackupInput := ⟨105, .snapshot, none, none, none, false, true⟩

def evening : Instant := ⟨2026, 6, 9, 21, 30, 0, 0, by decide⟩

def newArchive : BackupArchive :=
  ⟨"local:backup/b".toList, 105, some 2, none, some "mcp-20260609-213000".toList, none⟩

def runOn (w : Nat → (c : BackupCall) → BackupAnswer c) :
    List (Event BackupCall BackupAnswer) × Outcome Str GuestBackupResult :=
  run w 0 (guestBackupHandler (fun s => s.map Char.toNat) capOne sshNode backup105 evening)

def ledgerOn (w : Nat → (c : BackupCall) → BackupAnswer c) : BackupLedger :=
  (newBackup capOne sshNode backup105 evening).ledgerOf (runOn w).1

/-- With a cap of one, the new archive takes the place of the old one. -/
theorem guestBackup_retention_oneArchive :
    let s := ledgerOn (oneArchive markedArchive (.ok [markedArchive, newArchive]))
    s.deletes = [("local:backup/a".toList, true)] ∧
      ((s.left [markedArchive, newArchive]).length : Int) ≤ 1 := by
  intro s
  have hdeletes : s.deletes = [("local:backup/a".toList, true)] := by decide +kernel
  have hfresh : s.fresh = some [markedArchive, newArchive] := by decide +kernel
  have hsucceeded : ∀ d ∈ s.deletes, d.2 = true := by
    rw [hdeletes]
    decide
  refine ⟨hdeletes, ?_⟩
  obtain ⟨-, -, -, hleft⟩ := guestBackup_retention (fun s => s.map Char.toNat) capOne sshNode
    backup105 evening (oneArchive markedArchive (.ok [markedArchive, newArchive])) rfl
  obtain ⟨fresh, hfresh', -, hcap⟩ := hleft _ "local:backup/b".toList rfl (by decide +kernel)
    hsucceeded
  obtain rfl : fresh = _ := Option.some.inj (hfresh'.symm.trans hfresh)
  exact (hcap (by decide)).1

/-- The note ` mcp-old` counts as the server's; and a run that cannot list again is
completed, but retires nothing. -/
theorem not_guestBackup_retention :
    (∃ d ∈ (ledgerOn (oneArchive indentedArchive (.ok [indentedArchive, newArchive]))).deletes,
      d.2 = true ∧ d.1 = indentedArchive.volid ∧
        ¬mcpBackupPrefix <+: indentedArchive.notes.getD []) ∧
    (∃ r, (runOn (oneArchive markedArchive (.error "timeout".toList))).2 = .returned r ∧
      r.status = .completed) ∧
      (ledgerOn (oneArchive markedArchive (.error "timeout".toList))).deletes = [] ∧
      ¬(([markedArchive, newArchive].filter fun a => isMcpArchive a.notes).length : Int) ≤
        max 1 capOne.guestArchivePerGuestCap := by
  refine ⟨⟨("local:backup/a".toList, true), ?_, rfl, rfl, by decide⟩, ⟨_, rfl, rfl⟩, ?_, ?_⟩
  · rw [show (ledgerOn (oneArchive indentedArchive (.ok [indentedArchive, newArchive]))).deletes =
      [("local:backup/a".toList, true)] by decide +kernel]
    exact List.mem_singleton_self _
  · decide +kernel
  · decide +kernel

end HomelabMcp.Guests
