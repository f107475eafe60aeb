import HomelabMcp.Tools.World

/-!
# A revert in the world of the file tools

A revert writes the content that a backup gives back over what is in the file, and takes a
managed backup of that first, as far as it can be stored.

- `revert_refines`: a revert writes the content of the backup it was told of, or of the
  newest one, into the file that backup is of, or leaves the files as they are; it takes at
  most one managed backup of the store.
-/

namespace HomelabMcp.Tools

open SlashPath Text Backup Integrity Audit Guardrails Program

/-- The file that a target names, without the fields that its kind does not use. -/
def site (t : BackupTarget) : BackupTarget :=
  match t.kind with
  | .host => .onHost t.remotePath
  | .pct => ⟨.pct, t.vmid, none, t.remotePath⟩
  | .qm => ⟨.qm, t.vmid, none, t.remotePath⟩
  | .docker => t

/-- The file that was located. -/
def Located.site (path : Str) : Located → BackupTarget
  | .host => .onHost path
  | .pct vmid => ⟨.pct, some vmid, none, path⟩
  | .qm vmid _ => ⟨.qm, some vmid, none, path⟩
  | .docker vmid container _ => ⟨.docker, some vmid, some container, path⟩

/-- A file that the tools can be asked for. -/
inductive Place : BackupTarget → Prop
  | host (path : Str) : Place (.onHost path)
  | pct (vmid : Nat) (path : Str) : Place ⟨.pct, some vmid, none, path⟩
  | qm (vmid : Nat) (path : Str) : Place ⟨.qm, some vmid, none, path⟩
  | docker (vmid : Nat) (container path : Str) : Place ⟨.docker, some vmid, some container, path⟩

theorem Located.place (located : Located) (path : Str) : Place (located.site path) := by
  cases located with
  | host => exact .host path
  | pct vmid => exact .pct vmid path
  | qm vmid node => exact .qm vmid path
  | docker vmid container inspect => exact .docker vmid container path

namespace RevertCall

/-- The file that a call reads, looks up or writes. -/
def file : RevertCall → Option BackupTarget
  | .readFile path | .writeFile path _ => some (.onHost path)
  | .pullContainerFile vmid path | .statContainerPerms vmid path
  | .pushContainerFile vmid path _ _ => some ⟨.pct, some vmid, none, path⟩
  | .readVmFile _ vmid path | .writeVmFile _ vmid path _ => some ⟨.qm, some vmid, none, path⟩
  | .readDockerFile vmid container path _ | .statDockerPerms vmid container path
  | .writeDockerFile vmid container path _ _ _ _ => some ⟨.docker, some vmid, some container, path⟩
  | _ => none

/-- What a call writes into a file. -/
def puts : RevertCall → Option Bytes
  | .writeFile _ content | .pushContainerFile _ _ content _ | .writeVmFile _ _ _ content
  | .writeDockerFile _ _ _ content _ _ _ => some content
  | _ => none

/-- What a call shows of a file. -/
def reads : RevertCall → Bool
  | .readFile _ | .pullContainerFile _ _ | .readVmFile _ _ _ | .readDockerFile _ _ _ _ => true
  | _ => false

end RevertCall

/-- What has happened so far in a revert. -/
structure RevertWatch where
  /-- What the file was read to hold. -/
  current : Option (Option Bytes)
  restored : Option Bytes
  stored : Bool
  attempted : Bool
  written : Bool
  historyFailed : Bool
  records : List AuditFields

namespace RevertWatch

def start : RevertWatch := ⟨none, none, false, false, false, false, []⟩

/-- What a call and its answer add. -/
def next (s : RevertWatch) : (c : ToolCall RevertCall) → ToolAnswer RevertResult c → RevertWatch
  | .op (.readFile _), .ok content => { s with current := some (some content) }
  | .op (.readFile _), .error _ => { s with current := some none }
  | .op (.pullContainerFile _ _), .ok content => { s with current := some content }
  | .op (.readVmFile _ _ _), .ok content => { s with current := some content }
  | .op (.readDockerFile _ _ _ _), .ok content => { s with current := some content }
  | .op (.restore _ _), .ok content => { s with restored := content }
  | .op (.storeBackup _ _), .ok _ => { s with stored := true }
  | .op (.writeFile _ _), .ok _ | .op (.pushContainerFile _ _ _ _), .ok _
  | .op (.writeVmFile _ _ _ _), .ok _ | .op (.writeDockerFile _ _ _ _ _ _ _), .ok _ =>
    { s with attempted := true, written := true }
  | .op (.writeFile _ _), .error _ | .op (.pushContainerFile _ _ _ _), .error _
  | .op (.writeVmFile _ _ _ _), .error _ | .op (.writeDockerFile _ _ _ _ _ _ _), .error _ =>
    { s with attempted := true }
  | .op (.recordMutation _ _), .error _ => { s with historyFailed := true }
  | .append record, _ => { s with records := s.records ++ [record] }
  | _, _ => s

/-- Which operations may be performed, in view of what has happened. -/
structure AllowedOp (backupPath : Str) (target : BackupTarget) (s : RevertWatch) (c : RevertCall) :
    Prop where
  file : ∀ t, c.file = some t → t = site target
  reads : c.reads = true → s.current = none
  restores : ∀ p live, c = .restore p live →
    p = backupPath ∧ s.current = some live ∧ s.stored = false ∧ s.attempted = false
  stores : ∀ t old, c = .storeBackup t old →
    t = target ∧ s.current = some (some old) ∧ s.stored = false
  puts : ∀ content, c.puts = some content → s.restored = some content ∧ s.attempted = false

section
variable (rt : Runtime) (backupPath : Str) (target : BackupTarget)

/-- A record of what went wrong, or the one of the restored content. -/
def MayAppend (s : RevertWatch) (record : AuditFields) : Prop :=
  record.newSha256 = none ∨ s.written = true ∧ s.records = [] ∧
    ∃ current content, s.current = some current ∧ s.restored = some content ∧
      Watch.Tells rt (site target) current content record

def monitor : Monitor (ToolCall RevertCall) (ToolAnswer RevertResult) RevertWatch where
  next := next
  allowed
    | s, .op c => s.AllowedOp backupPath target c
    | s, .append record => s.MayAppend rt target record
    | _, _ => True

/-- A revert that returns has written and is on record; one that throws has not written,
unless the history threw, and leaves no record of a content. -/
def Ends (s : RevertWatch) : Outcome Str RevertFileResult → Prop
  | .returned result => s.written = true ∧ result.restoredFrom = backupPath ∧
    Place (site target) ∧ ∃ current content record, s.current = some current ∧ s.restored = some content ∧
      s.records = [record] ∧ Watch.Tells rt (site target) current content record
  | .thrown _ => (s.written = false ∨ s.historyFailed = true) ∧
    ∀ record ∈ s.records, record.newSha256 = none
  | .unfinished => False

/-- What is known before the record is appended. -/
def Done (s : RevertWatch) :
    Outcome Str (Located × Option Bytes × Bytes × Option Bool) → Prop
  | .returned (located, current, content, _) => s.written = true ∧ s.records = [] ∧
    s.current = some current ∧ s.restored = some content ∧
      located.site target.remotePath = site target
  | .thrown _ => (s.written = false ∨ s.historyFailed = true) ∧ s.records = []
  | .unfinished => False

end

/-! ## The steps -/

section
variable {rt : Runtime} {backupPath : Str} {target : BackupTarget} {s : RevertWatch} {α : Type}
  {post : RevertWatch → Outcome Str α → Prop} {current : Option Bytes} {content : Bytes}

theorem allowed_lookup {c : RevertCall} (hfile : ∀ t, c.file = some t → t = site target)
    (hputs : c.puts = none) (hreads : c.reads = true → s.current = none)
    (hrestore : ∀ p live, c ≠ .restore p live) (hstore : ∀ t old, c ≠ .storeBackup t old) :
    (monitor rt backupPath target).allowed s (.op c) where
  file := hfile
  reads := hreads
  restores p live hc := absurd hc (hrestore p live)
  stores t old hc := absurd hc (hstore t old)
  puts b hb := by
    rw [hputs] at hb
    cases hb

theorem allowed_put {c : RevertCall} (hfile : c.file = some (site target))
    (hputs : c.puts = some content) (hreads : c.reads = false) (hrestored : s.restored = some content)
    (hfirst : s.attempted = false) : (monitor rt backupPath target).allowed s (.op c) := by
  refine ⟨fun t ht => ?_, fun hc => ?_, ?_, ?_, fun b hb => ?_⟩
  · rw [hfile] at ht
    exact (Option.some.inj ht).symm
  · rw [hreads] at hc
    cases hc
  · rintro p live rfl
    cases hputs
  · rintro t old rfl
    cases hputs
  · rw [hputs] at hb
    exact ⟨Option.some.inj hb ▸ hrestored, hfirst⟩

theorem ignores_revertLookup {c : RevertCall} (hallowed : (monitor rt backupPath target).allowed s (.op c))
    (hnext : ∀ answer, s.next (.op c) answer = s) :
    (monitor rt backupPath target).Ignores False s (revertOp c) :=
  meets_perform.mpr ⟨hallowed, fun a => ⟨hnext (.ok a), nofun⟩, fun e => ⟨hnext (.error e), nofun⟩⟩

/-- A refusal is on record without a content. -/
theorem meets_breakerGate {useBreaker : Bool} {key : Str} {base : AuditFields}
    (hbase : base.newSha256 = none) {next : Unit → RevertTool RevertFileResult}
    (hnext : (monitor rt backupPath target).Meets (Ends rt backupPath target) start (next ())) :
    (monitor rt backupPath target).Meets (Ends rt backupPath target) start
      (breakerGate useBreaker key base >>= next) := by
  refine Monitor.meets_bind.mpr (Monitor.meets_ite.mpr ⟨fun _ => ?_, fun _ => hnext⟩)
  refine Monitor.meets_bind.mpr (meets_check.mpr ⟨trivial, fun verdict => ?_⟩)
  refine Monitor.meets_ite.mpr ⟨fun _ => ?_, fun _ => hnext⟩
  refine Monitor.meets_bind.mpr (meets_append.mpr ⟨Or.inl hbase, Or.inl rfl, fun record hrecord => ?_⟩)
  rw [List.mem_singleton.mp hrecord]
  exact hbase

/-- The state once the file has been read. -/
def afterRead (current : Option Bytes) : RevertWatch := { start with current := some current }

/-- An operation that only looks at the guest. -/
theorem ignores_guestLookup {c : RevertCall} (hfile : c.file = none) (hputs : c.puts = none)
    (hreads : c.reads = false) (hrestore : ∀ p live, c ≠ .restore p live)
    (hstore : ∀ t old, c ≠ .storeBackup t old) (hnext : ∀ answer, s.next (.op c) answer = s) :
    (monitor rt backupPath target).Ignores False s (revertOp c) := by
  refine ignores_revertLookup (allowed_lookup (fun t ht => ?_) hputs (fun hc => ?_) hrestore hstore)
    hnext
  · rw [hfile] at ht
    cases ht
  · rw [hreads] at hc
    cases hc

theorem ignores_assertContainerRunning {vmid : Nat} :
    (monitor rt backupPath target).Ignores False s (revertOp (.assertContainerRunning vmid)) :=
  ignores_guestLookup rfl rfl rfl nofun nofun fun _ => rfl

/-- Whatever is read, the rest goes on from there. -/
theorem meets_readTarget {next : Located × Option Bytes → RevertTool α}
    (hfailed : ∀ e, post start (.thrown e))
    (hnext : ∀ located current, located.site target.remotePath = site target →
      (monitor rt backupPath target).Meets post (afterRead current) (next (located, current))) :
    (monitor rt backupPath target).Meets post start (readTarget target >>= next) := by
  have hread {c : RevertCall} (hfile : c.file = some (site target)) (hputs : c.puts = none)
      (hrestore : ∀ p live, c ≠ .restore p live) (hstore : ∀ t old, c ≠ .storeBackup t old) :
      (monitor rt backupPath target).allowed start (.op c) := by
    refine allowed_lookup (fun t ht => ?_) hputs (fun _ => rfl) hrestore hstore
    rw [hfile] at ht
    exact (Option.some.inj ht).symm
  unfold readTarget
  cases hkind : target.kind with
  | host =>
    have hsite : .onHost target.remotePath = site target := by
      unfold site
      rw [hkind]
    refine Monitor.meets_bind.mpr (Monitor.meets_bind.mpr (Monitor.meets_ask.mpr
      ⟨hread (congrArg some hsite) rfl nofun nofun, fun answer => ?_⟩))
    cases answer with
    | ok content => exact hnext .host (some content) hsite
    | error e => exact hnext .host none hsite
  | pct =>
    dsimp only
    cases hvmid : target.vmid with
    | none => exact hfailed _
    | some vmid =>
      have hsite : ⟨.pct, some vmid, none, target.remotePath⟩ = site target := by
        unfold site
        rw [hkind, ← hvmid]
      refine Monitor.meets_bind.mpr (ignores_assertContainerRunning.meets_bind (fun _ => ?_)
        hfailed False.elim)
      exact Monitor.meets_bind.mpr (meets_perform.mpr
        ⟨hread (congrArg some hsite) rfl nofun nofun, fun content => hnext (.pct vmid) content hsite,
          hfailed⟩)
  | qm =>
    dsimp only
    cases hvmid : target.vmid with
    | none => exact hfailed _
    | some vmid =>
      have hsite : ⟨.qm, some vmid, none, target.remotePath⟩ = site target := by
        unfold site
        rw [hkind, ← hvmid]
      have hagent : (monitor rt backupPath target).Ignores False start
          (revertOp (.assertAgentAvailable vmid)) :=
        ignores_guestLookup rfl rfl rfl nofun nofun fun _ => rfl
      have hnode : (monitor rt backupPath target).allowed start (.op .resolveNodeName) :=
        allowed_lookup nofun rfl nofun nofun nofun
      refine Monitor.meets_bind.mpr (hagent.meets_bind (fun _ => ?_) hfailed False.elim)
      refine Monitor.meets_bind.mpr (meets_perform.mpr ⟨hnode, fun node => ?_, hfailed⟩)
      exact Monitor.meets_bind.mpr (meets_perform.mpr
        ⟨hread (congrArg some hsite) rfl nofun nofun,
          fun content => hnext (.qm vmid node) content hsite, hfailed⟩)
  | docker =>
    dsimp only
    split
    · exact hfailed _
    · exact hfailed _
    · exact hfailed _
    · next vmid container _ hvmid hcontainer =>
      have hsite : ⟨.docker, some vmid, some container, target.remotePath⟩ = site target := by
        unfold site
        rw [hkind]
        dsimp only
        rw [← hvmid, ← hcontainer, ← hkind]
      have hinspect : (monitor rt backupPath target).allowed start
          (.op (.resolveDockerContainer vmid container)) :=
        allowed_lookup nofun rfl nofun nofun nofun
      refine Monitor.meets_bind.mpr (ignores_assertContainerRunning.meets_bind (fun _ => ?_)
        hfailed False.elim)
      refine Monitor.meets_bind.mpr (meets_perform.mpr ⟨hinspect, fun inspect => ?_, hfailed⟩)
      exact Monitor.meets_bind.mpr (meets_perform.mpr
        ⟨hread (congrArg some hsite) rfl nofun nofun,
          fun content => hnext (.docker vmid container inspect) content hsite, hfailed⟩)

/-- What is written is what was restored, once. -/
theorem meets_writeTarget {cfg : RevertConfig} {located : Located}
    (hlocated : located.site target.remotePath = site target) (hrestored : s.restored = some content)
    (hfirst : s.attempted = false) {next : Unit → RevertTool α}
    (hfailed : ∀ e, post s (.thrown e)) (htried : ∀ e, post { s with attempted := true } (.thrown e))
    (hnext : (monitor rt backupPath target).Meets post { s with attempted := true, written := true }
      (next ())) :
    (monitor rt backupPath target).Meets post s
      (writeTarget cfg target.remotePath content located >>= next) := by
  have hput {c : RevertCall} (hfile : c.file = some (site target)) (hputs : c.puts = some content)
      (hreads : c.reads = false) : (monitor rt backupPath target).allowed s (.op c) :=
    allowed_put hfile hputs hreads hrestored hfirst
  have hlook {c : RevertCall} (hfile : c.file = some (site target)) (hputs : c.puts = none)
      (hreads : c.reads = false) (hrestore : ∀ p live, c ≠ .restore p live)
      (hstore : ∀ t old, c ≠ .storeBackup t old) :
      (monitor rt backupPath target).allowed s (.op c) := by
    refine allowed_lookup (fun t ht => ?_) hputs (fun hc => ?_) hrestore hstore
    · rw [hfile] at ht
      exact (Option.some.inj ht).symm
    · rw [hreads] at hc
      cases hc
  cases located with
  | host =>
    exact Monitor.meets_bind.mpr (meets_perform.mpr
      ⟨hput (congrArg some hlocated) rfl rfl, fun _ => hnext, htried⟩)
  | pct vmid =>
    have hstat := hlook (c := .statContainerPerms vmid target.remotePath) (congrArg some hlocated)
      rfl rfl nofun nofun
    refine Monitor.meets_bind.mpr ((ignores_revertLookup hstat fun _ => rfl).meets_bind
      (fun perms => ?_) hfailed False.elim)
    exact meets_perform.mpr ⟨hput (congrArg some hlocated) rfl rfl, fun _ => hnext, htried⟩
  | qm vmid node =>
    exact Monitor.meets_bind.mpr (meets_perform.mpr
      ⟨hput (congrArg some hlocated) rfl rfl, fun _ => hnext, htried⟩)
  | docker vmid container inspect =>
    have hwrite (perms : Option GuestPerms) : (monitor rt backupPath target).Meets post s
        (revertOp (.writeDockerFile vmid container target.remotePath content inspect perms
          cfg.newFile) >>= next) :=
      Monitor.meets_bind.mpr (meets_perform.mpr
        ⟨hput (congrArg some hlocated) rfl rfl, fun _ => hnext, htried⟩)
    unfold writeTarget
    dsimp only
    split
    · exact hwrite none
    · have hstat := hlook (c := .statDockerPerms vmid container target.remotePath)
        (congrArg some hlocated) rfl rfl nofun nofun
      refine Monitor.meets_bind.mpr ((ignores_revertLookup hstat fun _ => rfl).meets_bind
        (fun perms => ?_) hfailed False.elim)
      exact Monitor.meets_bind.mp (hwrite perms)

/-- The content to restore, with a backup of what it replaces. -/
theorem meets_restoredContent {next : Bytes → RevertTool α}
    (hfailed : ∀ e, post (afterRead current) (.thrown e))
    (hnext : ∀ content stored, (monitor rt backupPath target).Meets post
      { afterRead current with restored := some content, stored := stored } (next content)) :
    (monitor rt backupPath target).Meets post (afterRead current)
      (restoredContent backupPath target current >>= next) := by
  have hrestore : (monitor rt backupPath target).allowed (afterRead current)
      (.op (.restore backupPath current)) := by
    refine ⟨nofun, nofun, fun p live hc => ?_, nofun, nofun⟩
    cases hc
    exact ⟨rfl, rfl, rfl, rfl⟩
  unfold restoredContent
  refine Monitor.meets_bind.mpr (Monitor.meets_bind.mpr (meets_perform.mpr
    ⟨hrestore, fun restored => ?_, hfailed⟩))
  cases restored with
  | none => exact hfailed _
  | some content =>
    cases current with
    | none => exact hnext content false
    | some old =>
      refine Monitor.meets_bind.mpr (Monitor.meets_ask.mpr ⟨?_, fun answer => ?_⟩)
      · refine ⟨nofun, nofun, nofun, fun t b hc => ?_, nofun⟩
        cases hc
        exact ⟨rfl, rfl, rfl⟩
      · cases answer with
        | ok _ => exact hnext content true
        | error e => exact hnext content false

/-- A revert, up to the record. -/
theorem meets_revertTarget (cfg : RevertConfig) (hasHistory : Bool) :
    (monitor rt backupPath target).Meets (Done target) start
      (revertTarget cfg hasHistory backupPath target) := by
  have hfailed (s : RevertWatch) (hunwritten : s.written = false) (hrecords : s.records = [])
      (e : Str) : Done target s (.thrown e) := ⟨Or.inl hunwritten, hrecords⟩
  refine meets_readTarget (hfailed _ rfl rfl) fun located current hlocated => ?_
  refine meets_restoredContent (hfailed _ rfl rfl) fun content stored => ?_
  refine meets_writeTarget hlocated rfl rfl (hfailed _ rfl rfl) (hfailed _ rfl rfl) ?_
  split
  · refine Monitor.meets_bind.mpr (meets_perform.mpr ⟨?_, fun _ => ?_, fun _ => ⟨Or.inr rfl, rfl⟩⟩)
    · exact allowed_lookup nofun rfl nofun nofun nofun
    · exact ⟨rfl, rfl, rfl, rfl, hlocated⟩
  · exact ⟨rfl, rfl, rfl, rfl, hlocated⟩

/-- The record names the file. -/
theorem tells_revertRecord (cfg : RevertConfig) (input : RevertFileInput) {located : Located}
    (hlocated : located.site target.remotePath = site target) (committed : Option Bool) :
    Watch.Tells rt (site target) current content
      (revertRecord rt.sha256 cfg input backupPath target located current content committed) := by
  have hpath : some target.remotePath = some (site target).remotePath := by
    unfold site
    split <;> rfl
  have hvmid : recordedVmid target = (site target).vmid := by
    unfold recordedVmid site
    cases target.kind <;> rfl
  refine ⟨hvmid, ?_, hpath, rfl, rfl, rfl, rfl, rfl⟩
  rw [← hlocated]
  cases located with
  | docker vmid container inspect =>
    -- only the target of a Docker file is its own place
    have hkind : target.kind = .docker := by
      by_contra hkind
      unfold Located.site site at hlocated
      cases hk : target.kind <;> rw [hk] at hlocated hkind
      all_goals first | exact hkind rfl | cases hlocated
    have hsite : site target = target := by
      unfold site
      rw [hkind]
    rw [hsite] at hlocated
    exact (congrArg BackupTarget.container hlocated).symm
  | _ => rfl

/-- The whole revert, once the backup is found. -/
theorem meets_revert (cfg : RevertConfig) (hasHistory hasBreaker : Bool) (input : RevertFileInput) :
    (monitor rt backupPath target).Meets (Ends rt backupPath target) start (do
      breakerGate (hasBreaker && !input.overrideCircuitBreaker) (rollbackTargetKey (.file target))
        { tool := .revertFile, host := some cfg.host, vmid := recordedVmid target
          path := some target.remotePath }
      tryCatch
        (do
          let (located, current, restored, committed) ←
            revertTarget cfg hasHistory backupPath target
          append (revertRecord rt.sha256 cfg input backupPath target located current restored
            committed)
          pure { restoredFrom := backupPath, bytes := restored.length
                 vmid := recordedVmid target })
        fun message => do
          append (revertFailure cfg input backupPath target message)
          throw message) := by
  refine meets_breakerGate rfl ?_
  refine Monitor.meets_tryCatch.mpr (Monitor.meets_bind.mpr
    ((meets_revertTarget cfg hasHistory).mono fun s o hdone => ?_))
  cases o with
  | unfinished => exact hdone.elim
  | returned found =>
    obtain ⟨located, current, content, committed⟩ := found
    obtain ⟨hwritten, hrecords, hcurrent, hrestored, hlocated⟩ := hdone
    have htells : Watch.Tells rt (site target) current content (revertRecord rt.sha256 cfg input
        backupPath target located current content committed) :=
      tells_revertRecord cfg input hlocated committed
    refine Monitor.meets_bind.mpr (meets_append.mpr
      ⟨Or.inr ⟨hwritten, hrecords, current, content, hcurrent, hrestored, htells⟩, ?_⟩)
    refine ⟨hwritten, rfl, hlocated ▸ located.place _, current, content, _, hcurrent, hrestored, ?_,
      htells⟩
    show s.records ++ [_] = _
    rw [hrecords]
    rfl
  | thrown e =>
    refine Monitor.meets_bind.mpr (meets_append.mpr
      ⟨Or.inl rfl, hdone.1, fun record hrecord => ?_⟩)
    have hrecord : record ∈ s.records ++ [revertFailure cfg input backupPath target e] := hrecord
    rw [hdone.2, List.nil_append, List.mem_singleton] at hrecord
    rw [hrecord]
    rfl

end

end RevertWatch

/-! ## The search -/

/-- The calls that find a backup. -/
def searches : Monitor (ToolCall RevertCall) (ToolAnswer RevertResult) Unit where
  next _ _ _ := ()
  allowed
    | _, .op (.listBackupsForPath _) | _, .op (.readBackupTarget _) => True
    | _, _ => False

theorem searches_latestBackup (input : RevertFileInput) (path : Str) :
    searches.Ignores False () (latestBackup input path) := by
  refine (Monitor.ignores_orThrow _).bind fun target => Monitor.Ignores.bind ?_ fun versions => ?_
  · exact meets_perform.mpr ⟨trivial, fun _ => ⟨rfl, nofun⟩, fun _ => ⟨rfl, nofun⟩⟩
  · split
    · exact Monitor.ignores_pure _
    · exact Monitor.ignores_throw _

theorem searches_targetOfBackup (backupPath : Str) (path : Option Str) :
    searches.Ignores False () (targetOfBackup backupPath path) := by
  refine Monitor.Ignores.bind (Monitor.ignores_ask trivial fun _ => rfl) fun answer => ?_
  cases path with
  | none =>
    cases answer with
    | ok target => exact Monitor.ignores_pure _
    | error e => exact Monitor.ignores_throw _
  | some path =>
    have hsame (target : BackupTarget) : searches.Ignores False ()
        (if path ≠ target.remotePath then
          throw ("Path mismatch: supplied \"".toList ++ path ++
            "\" does not match backup target \"".toList ++ target.remotePath ++ "\"".toList)
        else pure target) :=
      Monitor.ignores_ite (Monitor.ignores_throw _) (Monitor.ignores_pure _)
    cases answer with
    | ok target => exact hsame target
    | error e =>
      cases path with
      | nil => exact Monitor.ignores_throw _
      | cons c cs => exact hsame _

theorem searches_resolveBackup (input : RevertFileInput) :
    searches.Ignores False () (resolveBackup input) := by
  unfold resolveBackup
  split
  · exact (searches_targetOfBackup _ _).bind fun _ => Monitor.ignores_pure _
  · exact Monitor.ignores_throw _
  · exact Monitor.ignores_throw _
  · exact searches_latestBackup input _

/-! ## The world -/

/-- The file of the store that a path names. -/
def locate (cfg : BackupConfig) (disk : Disk) (text : Str) : Option BackupPath :=
  (disk.find? fun f => decide (f.path.text cfg.baseDir = text)).map StoredFile.path

/-- Restoring from a path. -/
def restoreFrom (rt : Runtime) (cfg : BackupConfig) (disk : Disk) (backupPath : Str)
    (live : Option Bytes) : Except Str (Option Bytes) :=
  match locate cfg disk backupPath with
  | some p => restore rt disk p live
  | none => .error "Backup not found".toList

/-- A version as `revert_file` reads the list. -/
def listed (cfg : BackupConfig) (v : BackupVersionInfo) : ListedVersion :=
  ⟨v.backupPath.text cfg.baseDir, v.revertible⟩

def snapshotCall (target : BackupTarget) (now : Instant) (old : Bytes) : ManagedCall :=
  ⟨target, old, .snapshot, now⟩

/-- The answer to an operation of a revert that does not fail. -/
def revertAnswer (rt : Runtime) (cfg : BackupConfig) (now : Instant) (w : World) :
    (c : RevertCall) → Except Str (RevertResult c) × World
  | .listBackupsForPath target =>
    (.ok ((listBackupsForPath rt cfg w.disk target).map (listed cfg)), w)
  | .readBackupTarget backupPath =>
    (((locate cfg w.disk backupPath).bind (readBackupTarget w.disk)).elim (.error failure) .ok, w)
  | .restore backupPath live => (restoreFrom rt cfg w.disk backupPath live, w)
  | .storeBackup target content =>
    (.ok (), { w with disk := (backUp rt cfg (snapshotCall target now content) w.disk).2 })
  | .readFile path => ((w.files (.onHost path)).elim (.error failure) .ok, w)
  | .writeFile path content => (.ok (), w.hold (.onHost path) content)
  | .assertContainerRunning _ => (.ok (), w)
  | .pullContainerFile vmid path => (.ok (w.files ⟨.pct, some vmid, none, path⟩), w)
  | .statContainerPerms _ _ => (.ok none, w)
  | .pushContainerFile vmid path content _ => (.ok (), w.hold ⟨.pct, some vmid, none, path⟩ content)
  | .assertAgentAvailable _ => (.ok (), w)
  | .resolveNodeName => (.ok "pve".toList, w)
  | .readVmFile _ vmid path => (.ok (w.files ⟨.qm, some vmid, none, path⟩), w)
  | .writeVmFile _ vmid path content => (.ok (), w.hold ⟨.qm, some vmid, none, path⟩ content)
  | .resolveDockerContainer _ container => (.ok ⟨container, []⟩, w)
  | .readDockerFile vmid container path _ =>
    (.ok (w.files ⟨.docker, some vmid, some container, path⟩), w)
  | .statDockerPerms _ _ _ => (.ok none, w)
  | .writeDockerFile vmid container path content _ _ _ =>
    (.ok (), w.hold ⟨.docker, some vmid, some container, path⟩ content)
  | .recordMutation _ _ => (.ok true, w)

/-- What fails does not concern the history, which answers even then. -/
def RevertCall.mayFail : RevertCall → Bool
  | .recordMutation _ _ => false
  | _ => true

/-- The world answers. -/
def answerRevert (rt : Runtime) (cfg : BackupConfig) (trouble : Trouble RevertCall)
    (now : Instant) (w : World) : (c : ToolCall RevertCall) → ToolAnswer RevertResult c × World
  | .op c =>
    if trouble.fails c && c.mayFail then
      (.error failure, w.tear c.file c.puts (trouble.leaves c))
    else revertAnswer rt cfg now w c
  | .append record => ((), { w with log := w.log ++ [record] })
  | .check _ | .peek _ => (trouble.verdict, w)
  | .clock => (0, w)

section
variable (rt : Runtime) (cfg : BackupConfig) (trouble : Trouble RevertCall) (now : Instant)

abbrev SeenByRevert (target : BackupTarget) (w : World) (current : Option Bytes) : Prop :=
  w.Shows (fun path => trouble.fails (.readFile path)) (site target) current

/-- A write that threw has left a part of what was restored in the file. -/
def TornRevert (backupPath : Str) (target : BackupTarget) (w w' : World) : Prop :=
  trouble.Tears RevertCall.file RevertCall.puts (site target) ∧
    ∃ current restored n, SeenByRevert trouble target w current ∧
      restoreFrom rt cfg w.disk backupPath current = .ok (some restored) ∧
      w'.files = Function.update w.files (site target) (some (restored.take n))

/-- The store after a revert: as it was, or with a backup of what was replaced. -/
def SnapshotsAtMost (target : BackupTarget) (w w' : World) : Prop :=
  w'.disk = w.disk ∨ ∃ old, SeenByRevert trouble target w (some old) ∧
    w'.disk = (backUp rt cfg (snapshotCall target now old) w.disk).2

/-- What a revert of a backup does to the world. -/
def RevertOf (backupPath : Str) (target : BackupTarget) (w w' : World) :
    Outcome Str RevertFileResult → Prop
  | .returned result => result.restoredFrom = backupPath ∧ Place (site target) ∧
    ∃ current restored record, SeenByRevert trouble target w current ∧
      restoreFrom rt cfg w.disk backupPath current = .ok (some restored) ∧
      w'.files = Function.update w.files (site target) (some restored) ∧
      SnapshotsAtMost rt cfg trouble now target w w' ∧
      w'.log = w.log ++ [record] ∧ Watch.Tells rt (site target) current restored record
  | .thrown _ => (w'.files = w.files ∨ TornRevert rt cfg trouble backupPath target w w') ∧
    SnapshotsAtMost rt cfg trouble now target w w' ∧
    ∃ records, w'.log = w.log ++ records ∧ ∀ record ∈ records, record.newSha256 = none
  | .unfinished => False

/-- What a revert does to the world: nothing where no backup is found, or one that is of a
file that may not be written. -/
def RevertStep (revert : RevertConfig) (input : RevertFileInput) (w w' : World)
    (outcome : Outcome Str RevertFileResult) : Prop :=
  ((∃ e, outcome = .thrown e) ∧ w' = w) ∨
    ∃ backupPath target,
      (play (answerRevert rt cfg trouble now) w (resolveBackup input)).1 =
        .returned (backupPath, target) ∧
      validatePath target.remotePath revert.pathAllowlist (some revert.pathDenylist) = none ∧
      RevertOf rt cfg trouble now backupPath target w w' outcome

/-- What the watch has seen is so in the world. -/
structure RevertFollows (backupPath : Str) (target : BackupTarget) (w₀ : World) (s : RevertWatch)
    (w : World) : Prop where
  seen : ∀ current, s.current = some current → SeenByRevert trouble target w₀ current
  restored : ∀ content, s.restored = some content → ∃ current, s.current = some current ∧
    restoreFrom rt cfg w₀.disk backupPath current = .ok (some content)
  unstored : s.stored = false → w.disk = w₀.disk
  stored : s.stored = true → ∃ old, s.current = some (some old) ∧
    w.disk = (backUp rt cfg (snapshotCall target now old) w₀.disk).2
  tried : s.written = true → s.attempted = true
  asked : s.attempted = true → s.restored.isSome
  untried : s.attempted = false → w.files = w₀.files
  unwritten : s.written = false → w.files = w₀.files ∨
    trouble.Tears RevertCall.file RevertCall.puts (site target) ∧
      ∃ content n, s.restored = some content ∧
        w.files = Function.update w₀.files (site target) (some (content.take n))
  written : s.written = true → ∃ content, s.restored = some content ∧
    w.files = Function.update w₀.files (site target) (some content)
  history : s.historyFailed = false
  log : w.log = w₀.log ++ s.records

end

section
variable {rt : Runtime} {cfg : BackupConfig} {trouble : Trouble RevertCall} {now : Instant}
  {backupPath : Str} {target : BackupTarget} {w₀ w : World} {s : RevertWatch}

theorem revertFollows_start : RevertFollows rt cfg trouble now backupPath target w₀ .start w₀ where
  seen _ hcurrent := nomatch hcurrent
  restored _ hrestored := nomatch hrestored
  unstored _ := rfl
  stored hstored := nomatch hstored
  tried hwritten := nomatch hwritten
  asked htried := nomatch htried
  untried _ := rfl
  unwritten _ := Or.inl rfl
  written hwritten := nomatch hwritten
  history := rfl
  log := (List.append_nil _).symm

/-- The one read. -/
theorem RevertFollows.read (h : RevertFollows rt cfg trouble now backupPath target w₀ s w)
    (hfirst : s.current = none) {current : Option Bytes}
    (hcurrent : SeenByRevert trouble target w current) :
    RevertFollows rt cfg trouble now backupPath target w₀ { s with current := some current } w := by
  have hnothing {content : Bytes} : s.restored ≠ some content := by
    intro hrestored
    obtain ⟨live, hlive, -⟩ := h.restored content hrestored
    rw [hfirst] at hlive
    cases hlive
  have huntried : s.attempted = false := by
    by_contra htried
    obtain ⟨content, hcontent⟩ := Option.isSome_iff_exists.mp (h.asked (Bool.not_eq_false _ ▸ htried))
    exact hnothing hcontent
  refine { h with
    seen := fun live hlive => ?_
    restored := fun content hcontent => absurd hcontent hnothing
    stored := fun hstored => ?_ }
  · obtain rfl := Option.some.inj hlive
    exact hcurrent.of_files (h.untried huntried)
  · obtain ⟨old, hold, -⟩ := h.stored hstored
    rw [hfirst] at hold
    cases hold

theorem RevertFollows.restore (h : RevertFollows rt cfg trouble now backupPath target w₀ s w)
    {live : Option Bytes} (hlive : s.current = some live) (hstored : s.stored = false)
    (hfirst : s.attempted = false) {content : Option Bytes}
    (hcontent : restoreFrom rt cfg w.disk backupPath live = .ok content) :
    RevertFollows rt cfg trouble now backupPath target w₀ { s with restored := content } w := by
  have hnot {p : Prop} (htried : s.attempted = true) : p := by
    rw [hfirst] at htried
    cases htried
  refine { h with
    restored := fun b hb => ⟨live, hlive, ?_⟩
    asked := hnot
    unwritten := fun _ => Or.inl (h.untried hfirst)
    written := fun hwritten => hnot (h.tried hwritten) }
  rw [← h.unstored hstored, hcontent]
  exact congrArg Except.ok hb

theorem RevertFollows.snapshot (h : RevertFollows rt cfg trouble now backupPath target w₀ s w)
    {old : Bytes} (hold : s.current = some (some old)) (hstored : s.stored = false) :
    RevertFollows rt cfg trouble now backupPath target w₀ { s with stored := true }
      { w with disk := (backUp rt cfg (snapshotCall target now old) w.disk).2 } :=
  { h with
    unstored := nofun
    stored := fun _ => ⟨old, hold, by rw [h.unstored hstored]⟩ }

/-- The one write. -/
theorem RevertFollows.put (h : RevertFollows rt cfg trouble now backupPath target w₀ s w)
    {place : BackupTarget} (hplace : place = site target) {content : Bytes}
    (hrestored : s.restored = some content) (hfirst : s.attempted = false) :
    RevertFollows rt cfg trouble now backupPath target w₀
      { s with attempted := true, written := true } (w.hold place content) := by
  subst hplace
  refine { h with
    tried := fun _ => rfl
    asked := fun _ => hrestored ▸ rfl
    untried := nofun
    unwritten := nofun
    written := fun _ => ⟨content, hrestored, ?_⟩ }
  show Function.update w.files (site target) (some content) = _
  rw [h.untried hfirst]

/-- The one write, which throws. -/
theorem RevertFollows.tear (h : RevertFollows rt cfg trouble now backupPath target w₀ s w)
    {c : RevertCall} (hfile : c.file = some (site target)) {content : Bytes}
    (hputs : c.puts = some content) (hrestored : s.restored = some content)
    (hfirst : s.attempted = false) (hfails : trouble.fails c = true) :
    RevertFollows rt cfg trouble now backupPath target w₀ { s with attempted := true }
      (w.tear c.file c.puts (trouble.leaves c)) := by
  have huntried := h.untried hfirst
  have hnot {p : Prop} (hwritten : s.written = true) : p := by
    have htried := h.tried hwritten
    rw [hfirst] at htried
    cases htried
  rw [hfile, hputs]
  cases hleft : trouble.leaves c with
  | none =>
    exact { h with
      tried := fun _ => rfl
      asked := fun _ => hrestored ▸ rfl
      untried := nofun
      unwritten := fun _ => Or.inl huntried }
  | some n =>
    refine { h with
      tried := fun _ => rfl
      asked := fun _ => hrestored ▸ rfl
      untried := nofun
      unwritten := fun _ => Or.inr ⟨⟨c, hfile, hputs ▸ rfl, hfails, hleft ▸ rfl⟩,
        content, n, hrestored, ?_⟩
      written := hnot }
    show Function.update w.files (site target) (some (content.take n)) = _
    rw [huntried]

theorem revertFollows_step (s : RevertWatch) (w : World) (c : ToolCall RevertCall)
    (hallowed : (RevertWatch.monitor rt backupPath target).allowed s c)
    (h : RevertFollows rt cfg trouble now backupPath target w₀ s w) :
    RevertFollows rt cfg trouble now backupPath target w₀
      ((RevertWatch.monitor rt backupPath target).next s c (answerRevert rt cfg trouble now w c).1)
      (answerRevert rt cfg trouble now w c).2 := by
  cases c with
  | check key => exact h
  | peek key => exact h
  | clock => exact h
  | append record =>
    have hlog : w.log ++ [record] = w₀.log ++ (s.records ++ [record]) := by
      rw [h.log, List.append_assoc]
    exact { h with log := hlog }
  | op c =>
    have hop : s.AllowedOp backupPath target c := hallowed
    by_cases hfails : (trouble.fails c && c.mayFail) = true
    · -- as for a write: a failing read may count as no file, a failing write may land
      rw [show answerRevert rt cfg trouble now w (.op c) =
        (.error failure, w.tear c.file c.puts (trouble.leaves c)) from if_pos hfails]
      have hthrows : trouble.fails c = true := (Bool.and_eq_true _ _ ▸ hfails).1
      cases c with
      | readFile path =>
        exact h.read (hop.reads rfl) (Or.inr ⟨rfl, path, (hop.file _ rfl).symm, hthrows⟩)
      | writeFile path content =>
        obtain ⟨hrestored, hfirst⟩ := hop.puts content rfl
        exact h.tear (congrArg some (hop.file _ rfl)) rfl hrestored hfirst hthrows
      | pushContainerFile vmid path content perms =>
        obtain ⟨hrestored, hfirst⟩ := hop.puts content rfl
        exact h.tear (congrArg some (hop.file _ rfl)) rfl hrestored hfirst hthrows
      | writeVmFile node vmid path content =>
        obtain ⟨hrestored, hfirst⟩ := hop.puts content rfl
        exact h.tear (congrArg some (hop.file _ rfl)) rfl hrestored hfirst hthrows
      | writeDockerFile vmid container path content inspect prevPerms newFile =>
        obtain ⟨hrestored, hfirst⟩ := hop.puts content rfl
        exact h.tear (congrArg some (hop.file _ rfl)) rfl hrestored hfirst hthrows
      | recordMutation place content => exact absurd (Bool.and_eq_true _ _ ▸ hfails).2 nofun
      | _ => exact h
    · rw [show answerRevert rt cfg trouble now w (.op c) = revertAnswer rt cfg now w c from
        if_neg hfails]
      cases c with
      | restore p live =>
        obtain ⟨rfl, hlive, hstored, hfirst⟩ := hop.restores p live rfl
        show RevertFollows rt cfg trouble now p target w₀ (s.next (.op (.restore p live))
          (restoreFrom rt cfg w.disk p live)) w
        cases hcontent : restoreFrom rt cfg w.disk p live with
        | error e => exact h
        | ok content => exact h.restore hlive hstored hfirst hcontent
      | storeBackup place old =>
        obtain ⟨rfl, hold, hstored⟩ := hop.stores place old rfl
        exact h.snapshot hold hstored
      | readFile path =>
        have hread {current : Option Bytes} (hcurrent : w.files (.onHost path) = current) :
            SeenByRevert trouble target w current := Or.inl (by rw [← hop.file _ rfl, hcurrent])
        show RevertFollows rt cfg trouble now backupPath target w₀ (s.next (.op (.readFile path))
          ((w.files (.onHost path)).elim (.error failure) .ok)) w
        cases hcurrent : w.files (.onHost path) with
        | none => exact h.read (hop.reads rfl) (hread hcurrent)
        | some content => exact h.read (hop.reads rfl) (hread hcurrent)
      | pullContainerFile vmid path =>
        exact h.read (hop.reads rfl) (Or.inl (congrArg w.files (hop.file _ rfl)))
      | readVmFile node vmid path =>
        exact h.read (hop.reads rfl) (Or.inl (congrArg w.files (hop.file _ rfl)))
      | readDockerFile vmid container path inspect =>
        exact h.read (hop.reads rfl) (Or.inl (congrArg w.files (hop.file _ rfl)))
      | writeFile path content =>
        obtain ⟨hrestored, hfirst⟩ := hop.puts content rfl
        exact h.put (hop.file _ rfl) hrestored hfirst
      | pushContainerFile vmid path content perms =>
        obtain ⟨hrestored, hfirst⟩ := hop.puts content rfl
        exact h.put (hop.file _ rfl) hrestored hfirst
      | writeVmFile node vmid path content =>
        obtain ⟨hrestored, hfirst⟩ := hop.puts content rfl
        exact h.put (hop.file _ rfl) hrestored hfirst
      | writeDockerFile vmid container path content inspect prevPerms newFile =>
        obtain ⟨hrestored, hfirst⟩ := hop.puts content rfl
        exact h.put (hop.file _ rfl) hrestored hfirst
      | listBackupsForPath place => exact h
      | readBackupTarget p =>
        show RevertFollows rt cfg trouble now backupPath target w₀ (s.next (.op (.readBackupTarget p))
          (((locate cfg w.disk p).bind (readBackupTarget w.disk)).elim (.error failure) .ok)) w
        cases (locate cfg w.disk p).bind (readBackupTarget w.disk) <;> exact h
      | _ => exact h

/-- Where the watch ends, the world has changed as a revert changes it. -/
theorem revertOf_of_meets {p : RevertTool RevertFileResult}
    (h : (RevertWatch.monitor rt backupPath target).Meets (RevertWatch.Ends rt backupPath target)
      .start p) :
    RevertOf rt cfg trouble now backupPath target w
      (play (answerRevert rt cfg trouble now) w p).2 (play (answerRevert rt cfg trouble now) w p).1 := by
  obtain ⟨s, hfollows, hends⟩ := h.play
    (RevertFollows rt cfg trouble now backupPath target w) revertFollows_step revertFollows_start
  generalize play (answerRevert rt cfg trouble now) w p = result at hfollows hends
  obtain ⟨outcome, w'⟩ := result
  dsimp only at hfollows hends ⊢
  have hsnapshot : SnapshotsAtMost rt cfg trouble now target w w' := by
    cases hstored : s.stored with
    | false => exact Or.inl (hfollows.unstored hstored)
    | true =>
      obtain ⟨old, hold, hdisk⟩ := hfollows.stored hstored
      exact Or.inr ⟨old, hfollows.seen _ hold, hdisk⟩
  cases outcome with
  | unfinished => exact hends
  | thrown e =>
    obtain ⟨hunwritten | hhistory, hrecords⟩ := hends
    · refine ⟨(hfollows.unwritten hunwritten).imp_right ?_, hsnapshot, s.records, hfollows.log,
        hrecords⟩
      rintro ⟨htears, content, n, hcontent, hfiles⟩
      obtain ⟨current, hcurrent, hrestored⟩ := hfollows.restored content hcontent
      exact ⟨htears, current, content, n, hfollows.seen current hcurrent, hrestored, hfiles⟩
    · -- only the history could throw after the write, and it never does
      rw [hfollows.history] at hhistory
      cases hhistory
  | returned result =>
    obtain ⟨hwritten, hfrom, hplace, current, content, record, hcurrent, hcontent, hrecords,
      htells⟩ := hends
    obtain ⟨content', hcontent', hfiles⟩ := hfollows.written hwritten
    obtain rfl := Option.some.inj (hcontent.symm.trans hcontent')
    obtain ⟨current', hcurrent', hrestored⟩ := hfollows.restored content hcontent
    obtain rfl := Option.some.inj (hcurrent.symm.trans hcurrent')
    exact ⟨hfrom, hplace, current, content, record, hfollows.seen current hcurrent, hrestored, hfiles,
      hsnapshot, hrecords ▸ hfollows.log, htells⟩

/-- The search for a backup changes nothing. -/
theorem play_resolveBackup (rt : Runtime) (cfg : BackupConfig) (trouble : Trouble RevertCall)
    (now : Instant) (w : World) (input : RevertFileInput) :
    (play (answerRevert rt cfg trouble now) w (resolveBackup input)).2 = w ∧
      (play (answerRevert rt cfg trouble now) w (resolveBackup input)).1 ≠ .unfinished := by
  have hstep (s : Unit) (w' : World) (c : ToolCall RevertCall) (hallowed : searches.allowed s c)
      (hw' : w' = w) : (answerRevert rt cfg trouble now w' c).2 = w := by
    subst hw'
    cases c with
    | op c =>
      unfold answerRevert
      dsimp only
      split
      · cases c <;> first | rfl | exact hallowed.elim
      · cases c <;> first | rfl | exact hallowed.elim
    | _ => exact hallowed.elim
  obtain ⟨-, hworld, -, hended⟩ := (searches_resolveBackup input).play (fun _ w' => w' = w) hstep rfl
  exact ⟨hworld, hended⟩

end

/-- A revert writes what its backup gives back into the file the backup is of, in the world;
where it throws, no file has changed but by a write that threw. -/
theorem revert_refines (rt : Runtime) (cfg : BackupConfig) (revert : RevertConfig)
    (hasHistory hasBreaker : Bool) (trouble : Trouble RevertCall) (now : Instant)
    (input : RevertFileInput) (w : World) :
    RevertStep rt cfg trouble now revert input w
      (play (answerRevert rt cfg trouble now) w
        (revertFileHandler rt.sha256 revert hasHistory hasBreaker input)).2
      (play (answerRevert rt cfg trouble now) w
        (revertFileHandler rt.sha256 revert hasHistory hasBreaker input)).1 := by
  obtain ⟨hworld, hended⟩ := play_resolveBackup rt cfg trouble now w input
  unfold revertFileHandler RevertStep
  cases hplay : play (answerRevert rt cfg trouble now) w (resolveBackup input) with
  | mk outcome w' =>
    rw [hplay] at hworld hended
    obtain rfl : w' = w := hworld
    cases outcome with
    | unfinished => exact absurd rfl hended
    | thrown e =>
      rw [play_bind_thrown hplay]
      exact Or.inl ⟨⟨e, rfl⟩, rfl⟩
    | returned found =>
      obtain ⟨backupPath, target⟩ := found
      rw [play_bind_returned hplay]
      dsimp only
      split
      · exact Or.inl ⟨⟨_, rfl⟩, rfl⟩
      · next hvalid =>
        exact Or.inr ⟨backupPath, target, rfl, hvalid,
          revertOf_of_meets (RevertWatch.meets_revert revert hasHistory hasBreaker input)⟩

end HomelabMcp.Tools
