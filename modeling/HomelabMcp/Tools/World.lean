import HomelabMcp.Tools.CarefulWrites
import Mathlib.Logic.Function.Basic

/-!
# A world for the file tools

The files, the backup store and the audit log, as the operations of the tools find and
leave them. An operation that fails throws; a write that does may have left a part of its
content in the file, or all of it, and any other operation has changed nothing. A file of a
container is taken for a file of its own, also where a bind mount shows it elsewhere.

- `write_refines`: a write tool takes one managed backup of the store and writes one file,
  or leaves the files as they are, unless the write itself throws.
-/

namespace HomelabMcp.Tools

open SlashPath Text Backup Integrity Audit Guardrails Program EditString SortKey Iso

structure World where
  files : BackupTarget → Option Bytes
  disk : Disk
  log : List AuditFields

namespace World

/-- The world with some content in a file. -/
def hold (w : World) (target : BackupTarget) (content : Bytes) : World :=
  { w with files := Function.update w.files target (some content) }

end World

def failure : Str := "operation failed".toList

/-- What goes wrong in a call of a tool. -/
structure Trouble (C : Type) where
  /-- The operations that throw. -/
  fails : C → Bool
  /-- How much of its content a write that throws has left in its file, when it has. -/
  leaves : C → Option Nat
  /-- What the breaker says. -/
  verdict : BreakerVerdict

/-- Nothing throws. -/
def Trouble.calm {C : Type} (verdict : BreakerVerdict) : Trouble C :=
  ⟨fun _ => false, fun _ => none, verdict⟩

/-- A write into the file throws, and leaves something there. -/
def Trouble.Tears {C : Type} (trouble : Trouble C) (file : C → Option BackupTarget)
    (puts : C → Option Bytes) (target : BackupTarget) : Prop :=
  ∃ c, file c = some target ∧ (puts c).isSome ∧ trouble.fails c = true ∧
    (trouble.leaves c).isSome

theorem Trouble.not_tears_calm {C : Type} {verdict : BreakerVerdict}
    {file : C → Option BackupTarget} {puts : C → Option Bytes} {target : BackupTarget} :
    ¬ (Trouble.calm verdict).Tears file puts target := by
  rintro ⟨c, -, -, hfails, -⟩
  cases hfails

/-- The world once an operation has thrown. -/
def World.tear (w : World) (file : Option BackupTarget) (puts : Option Bytes)
    (left : Option Nat) : World :=
  match file, puts, left with
  | some target, some content, some n => w.hold target (content.take n)
  | _, _, _ => w

/-- The answer to an operation of a write that does not fail. -/
def writeAnswer (rt : Runtime) (cfg : BackupConfig) (now : Instant) (w : World) :
    (c : WriteCall) → Except Str (WriteResult c) × World
  | .latestBaseHash target => (.ok (latestBaseHash rt w.disk target), w)
  | .buildExistingHashMap => (.ok (buildExistingHashMap w.disk), w)
  | .checkDiskPressure => (.ok (checkDiskPressure cfg w.disk), w)
  | .storeBackup target kind newHash =>
    (.ok (storeBackup rt cfg target kind newHash now w.disk).1,
      { w with disk := (storeBackup rt cfg target kind newHash now w.disk).2 })
  | .readFile path => ((w.files (.onHost path)).elim (.error failure) .ok, w)
  | .writeFile path content => (.ok (), w.hold (.onHost path) content)
  | .assertContainerRunning _ => (.ok (), w)
  | .pullContainerFile vmid path => (.ok (w.files ⟨.pct, some vmid, none, path⟩), w)
  | .statContainerPerms _ _ => (.ok none, w)
  | .pushContainerFile vmid path content _ => (.ok (), w.hold ⟨.pct, some vmid, none, path⟩ content)
  | .assertAgentAvailable _ => (.ok (), w)
  | .resolveNodeName => (.ok "pve".toList, w)
  | .readVmFile _ vmid path => (.ok (w.files ⟨.qm, some vmid, none, path⟩), w)
  | .writeVmFile _ vmid path content => (.ok (), w.hold ⟨.qm, some vmid, none, path⟩ content)
  | .resolveDockerContainer _ container => (.ok ⟨container, []⟩, w)
  | .readDockerFile vmid container path _ =>
    (.ok (w.files ⟨.docker, some vmid, some container, path⟩, false), w)
  | .statDockerPerms _ _ _ => (.ok none, w)
  | .writeDockerFile vmid container path content _ _ _ =>
    (.ok (false, none), w.hold ⟨.docker, some vmid, some container, path⟩ content)
  | .recordMutation _ _ => (.ok true, w)

/-- The world answers. -/
def answerWrite (rt : Runtime) (cfg : BackupConfig) (trouble : Trouble WriteCall) (now : Instant)
    (w : World) : (c : ToolCall WriteCall) → ToolAnswer WriteResult c × World
  | .op c =>
    if trouble.fails c then (.error failure, w.tear c.file c.puts (trouble.leaves c))
    else writeAnswer rt cfg now w c
  | .append record => ((), { w with log := w.log ++ [record] })
  | .check _ | .peek _ => (trouble.verdict, w)
  | .clock => (0, w)

/-- What a tool takes a file to hold: a host file that cannot be read counts as new. -/
def World.Shows (w : World) (unreadable : Str → Bool) (target : BackupTarget)
    (content : Option Bytes) : Prop :=
  content = w.files target ∨
    content = none ∧ ∃ path, target = .onHost path ∧ unreadable path = true

/-- A file that can be read is taken for what it is. -/
theorem World.Shows.eq {w : World} {unreadable : Str → Bool} {target : BackupTarget}
    {content : Option Bytes} (h : w.Shows unreadable target content)
    (hreadable : ∀ path, target = .onHost path → unreadable path = false) :
    content = w.files target := by
  rcases h with h | ⟨-, path, htarget, hpath⟩
  · exact h
  · rw [hreadable path htarget] at hpath
    cases hpath

theorem World.Shows.of_files {w w' : World} {unreadable : Str → Bool} {target : BackupTarget}
    {content : Option Bytes} (h : w.Shows unreadable target content) (hfiles : w.files = w'.files) :
    w'.Shows unreadable target content :=
  h.imp_left fun hcontent => hcontent.trans (congrFun hfiles target)

section
variable (rt : Runtime) (cfg : WriteConfig) (trouble : Trouble WriteCall) (now : Instant)
  (r : WriteRequest)

abbrev Seen (w : World) (prev : Option Bytes) : Prop :=
  w.Shows (fun path => trouble.fails (.readFile path)) r.target prev

/-- A write that threw has left a part of the content that was asked for in the file. -/
def Torn (w w' : World) (prev : Option Bytes) (content : Bytes) : Prop :=
  r.content prev = .ok content ∧ trouble.Tears WriteCall.file WriteCall.puts r.target ∧
    (∃ n, w'.files = Function.update w.files r.target (some (content.take n))) ∧
    introducesRedactionMarker (prev.map Utf8.decode) (Utf8.decode content) = false

/-- The write of a request, as a step of the store. -/
def WriteRequest.call (prev : Option Bytes) (content : Bytes) : ManagedCall :=
  ⟨r.target, content, .write prev, now⟩

/-- What a write tool does to the world. -/
def WriteStep (w w' : World) : Outcome Str WriteOutcome → Prop
  | .returned (.preview _) => w'.files = w.files ∧ w'.disk = w.disk ∧ w'.log = w.log
  | .returned (.written result) =>
    ∃ prev content backup record, Seen trouble r w prev ∧ r.content prev = .ok content ∧
      (backup, w'.disk) = backUp rt cfg.backup (r.call now prev content) w.disk ∧
      w'.files = Function.update w.files r.target (some content) ∧
      w'.log = w.log ++ [record] ∧ Watch.OnRecord rt r.target prev content backup record ∧
      result.backupPath = backup.backupPath.or backup.existingPath ∧
      result.revertible = backup.revertible ∧
      introducesRedactionMarker (prev.map Utf8.decode) (Utf8.decode content) = false
  | .thrown _ => w'.log = w.log ∧
    (w'.files = w.files ∨
      ∃ prev content, Seen trouble r w prev ∧ Torn trouble r w w' prev content) ∧
    (w'.disk = w.disk ∨ ∃ prev content, Seen trouble r w prev ∧ r.content prev = .ok content ∧
      w'.disk = (backUp rt cfg.backup (r.call now prev content) w.disk).2)
  | .unfinished => False

/-- What the watch has seen is so in the world. -/
structure Follows (w₀ : World) (s : Watch) (w : World) : Prop where
  seen : ∀ prev, s.prev = some prev → Seen trouble r w₀ prev
  chain : ∀ hash, s.chain = some hash → hash = latestBaseHash rt w₀.disk r.target
  existing : ∀ map, s.existing = some map → map = buildExistingHashMap w₀.disk
  unstored : s.backup = none → w.disk = w₀.disk
  stored : ∀ backup, s.backup = some backup →
    ∃ prev content, s.prev = some prev ∧ r.content prev = .ok content ∧
      (backup, w.disk) = backUp rt cfg.backup (r.call now prev content) w₀.disk
  tried : s.written = true → s.attempted = true
  asked : s.attempted = true → s.prev.isSome
  untried : s.attempted = false → w.files = w₀.files
  unwritten : s.written = false → w.files = w₀.files ∨
    ∃ prev content, s.prev = some prev ∧ Torn trouble r w₀ w prev content
  written : s.written = true → ∃ prev content, s.prev = some prev ∧ r.content prev = .ok content ∧
    w.files = Function.update w₀.files r.target (some content) ∧
    introducesRedactionMarker (prev.map Utf8.decode) (Utf8.decode content) = false
  log : w.log = w₀.log ++ s.records
  recorded : ∀ record ∈ s.records, ∃ prev content backup, s.prev = some prev ∧
    r.content prev = .ok content ∧ s.backup = some backup ∧
      Watch.OnRecord rt r.target prev content backup record

end

section
variable {rt : Runtime} {cfg : WriteConfig} {trouble : Trouble WriteCall} {now : Instant}
  {r : WriteRequest} {w₀ w : World} {s : Watch}

theorem follows_start : Follows rt cfg trouble now r w₀ .start w₀ where
  seen := nofun
  chain := nofun
  existing := nofun
  unstored _ := rfl
  stored := nofun
  tried := nofun
  asked := nofun
  untried _ := rfl
  unwritten _ := Or.inl rfl
  written := nofun
  log := (List.append_nil _).symm
  recorded _ hrecord := absurd hrecord List.not_mem_nil

/-- The one read. -/
theorem Follows.read (h : Follows rt cfg trouble now r w₀ s w) (hfirst : s.prev = none)
    {prev : Option Bytes} (hprev : Seen trouble r w prev) :
    Follows rt cfg trouble now r w₀ { s with prev := some prev } w := by
  have hnothing {p : Option Bytes} : s.prev ≠ some p := fun hp => by
    rw [hfirst] at hp
    cases hp
  have huntried : s.attempted = false := by
    by_contra htried
    obtain ⟨p, hp⟩ := Option.isSome_iff_exists.mp (h.asked (Bool.not_eq_false _ ▸ htried))
    exact hnothing hp
  refine { h with
    seen := fun p hp => ?_
    stored := fun backup hbackup => ?_
    asked := fun _ => rfl
    unwritten := fun _ => Or.inl (h.untried huntried)
    written := fun hwritten => ?_
    recorded := fun record hrecord => ?_ }
  · obtain rfl := Option.some.inj hp
    exact hprev.of_files (h.untried huntried)
  · obtain ⟨p, -, hp, -⟩ := h.stored backup hbackup
    exact absurd hp hnothing
  · obtain ⟨p, -, hp, -⟩ := h.written hwritten
    exact absurd hp hnothing
  · obtain ⟨p, -, -, hp, -⟩ := h.recorded record hrecord
    exact absurd hp hnothing

theorem Follows.latestBaseHash (h : Follows rt cfg trouble now r w₀ s w)
    (hbefore : s.backup = none) :
    Follows rt cfg trouble now r w₀
      { s with chain := some (Backup.latestBaseHash rt w.disk r.target) } w :=
  { h with chain := fun hash hhash => by rw [← Option.some.inj hhash, h.unstored hbefore] }

theorem Follows.buildExistingHashMap (h : Follows rt cfg trouble now r w₀ s w)
    (hbefore : s.backup = none) :
    Follows rt cfg trouble now r w₀
      { s with existing := some (Backup.buildExistingHashMap w.disk) } w :=
  { h with existing := fun map hmap => by rw [← Option.some.inj hmap, h.unstored hbefore] }

/-- The backup that is chosen from what was looked up is the managed one. -/
theorem Follows.storeBackup (h : Follows rt cfg trouble now r w₀ s w) (hbefore : s.backup = none)
    {kind : BackupKind} {newHash : Str} (hchosen : s.Chosen rt cfg r kind newHash) :
    Follows rt cfg trouble now r w₀
      { s with backup := some (storeBackup rt cfg.backup r.target kind newHash now w.disk).1 }
      { w with disk := (storeBackup rt cfg.backup r.target kind newHash now w.disk).2 } := by
  obtain ⟨prev, chain, existing, content, hprev, hchain, hexisting, hcontent, rfl, rfl⟩ := hchosen
  refine { h with
    unstored := nofun
    stored := fun backup hbackup => ?_
    recorded := fun record hrecord => ?_ }
  · refine ⟨prev, content, hprev, hcontent, ?_⟩
    rw [← Option.some.inj hbackup, h.chain chain hchain, h.existing existing hexisting,
      h.unstored hbefore]
    rfl
  · obtain ⟨-, -, backup, -, -, hbackup, -⟩ := h.recorded record hrecord
    rw [hbefore] at hbackup
    cases hbackup

/-- The one write. -/
theorem Follows.put (h : Follows rt cfg trouble now r w₀ s w) {target : BackupTarget}
    (htarget : target = r.target) {content : Bytes} (hmay : s.MayWrite r content) :
    Follows rt cfg trouble now r w₀ { s with attempted := true, written := true }
      (w.hold target content) := by
  subst htarget
  obtain ⟨prev, hprev, hcontent, hunmarked⟩ := hmay.asked
  refine { h with
    tried := fun _ => rfl
    asked := fun _ => hprev ▸ rfl
    untried := nofun
    unwritten := nofun
    written := fun _ => ⟨prev, content, hprev, hcontent, ?_, hunmarked⟩ }
  show Function.update w.files r.target (some content) = _
  rw [h.untried hmay.first]

/-- The one write, which throws. -/
theorem Follows.tear (h : Follows rt cfg trouble now r w₀ s w) {c : WriteCall}
    (hfile : c.file = some r.target) {content : Bytes} (hputs : c.puts = some content)
    (hmay : s.MayWrite r content) (hfails : trouble.fails c = true) :
    Follows rt cfg trouble now r w₀ { s with attempted := true }
      (w.tear c.file c.puts (trouble.leaves c)) := by
  have huntried := h.untried hmay.first
  obtain ⟨prev, hprev, hcontent, hunmarked⟩ := hmay.asked
  have hunwritten : s.written = false := by
    by_contra hwritten
    have htried := h.tried (Bool.not_eq_false _ ▸ hwritten)
    rw [hmay.first] at htried
    cases htried
  have hnot {p : Prop} (hwritten : s.written = true) : p := by
    rw [hunwritten] at hwritten
    cases hwritten
  rw [hfile, hputs]
  cases hleft : trouble.leaves c with
  | none =>
    exact { h with
      tried := fun _ => rfl
      asked := fun _ => hprev ▸ rfl
      untried := nofun
      unwritten := fun _ => Or.inl huntried }
  | some n =>
    refine { h with
      tried := fun _ => rfl
      asked := fun _ => hprev ▸ rfl
      untried := nofun
      unwritten := fun _ => Or.inr ⟨prev, content, hprev, hcontent,
        ⟨c, hfile, hputs ▸ rfl, hfails, hleft ▸ rfl⟩, ⟨n, ?_⟩, hunmarked⟩
      written := hnot }
    show Function.update w.files r.target (some (content.take n)) = _
    rw [huntried]

theorem follows_step (s : Watch) (w : World) (c : ToolCall WriteCall)
    (hallowed : (Watch.monitor rt cfg r).allowed s c) (h : Follows rt cfg trouble now r w₀ s w) :
    Follows rt cfg trouble now r w₀
      ((Watch.monitor rt cfg r).next s c (answerWrite rt cfg.backup trouble now w c).1)
      (answerWrite rt cfg.backup trouble now w c).2 := by
  cases c with
  | check key => exact hallowed.elim
  | peek key => exact hallowed.elim
  | clock => exact hallowed.elim
  | append record =>
    obtain ⟨-, -, hrecord⟩ := hallowed
    refine { h with log := ?_, recorded := fun record' hmem => ?_ }
    · show w.log ++ [record] = w₀.log ++ (s.records ++ [record])
      rw [h.log, List.append_assoc]
    · rcases List.mem_append.mp hmem with hmem | hmem
      · exact h.recorded record' hmem
      · exact List.mem_singleton.mp hmem ▸ hrecord
  | op c =>
    have hop : s.AllowedOp rt cfg r c := hallowed
    by_cases hfails : trouble.fails c = true
    · -- a failing read may be taken for a missing file, a failing write may land
      rw [show answerWrite rt cfg.backup trouble now w (.op c) =
        (.error failure, w.tear c.file c.puts (trouble.leaves c)) from if_pos hfails]
      cases c with
      | readFile path =>
        exact h.read (hop.reads rfl) (Or.inr ⟨rfl, path, (hop.file _ rfl).symm, hfails⟩)
      | writeFile path content =>
        exact h.tear (congrArg some (hop.file _ rfl)) rfl (hop.puts content rfl) hfails
      | pushContainerFile vmid path content perms =>
        exact h.tear (congrArg some (hop.file _ rfl)) rfl (hop.puts content rfl) hfails
      | writeVmFile node vmid path content =>
        exact h.tear (congrArg some (hop.file _ rfl)) rfl (hop.puts content rfl) hfails
      | writeDockerFile vmid container path content inspect prevPerms newFile =>
        exact h.tear (congrArg some (hop.file _ rfl)) rfl (hop.puts content rfl) hfails
      | _ => exact h
    · rw [show answerWrite rt cfg.backup trouble now w (.op c) =
        writeAnswer rt cfg.backup now w c from if_neg hfails]
      cases c with
      | latestBaseHash target =>
        obtain rfl := hop.file target rfl
        exact h.latestBaseHash (hop.consults rfl)
      | buildExistingHashMap => exact h.buildExistingHashMap (hop.consults rfl)
      | storeBackup target kind newHash =>
        obtain rfl := hop.file target rfl
        obtain ⟨-, hbefore, hchosen⟩ := hop.stores _ kind newHash rfl
        exact h.storeBackup hbefore hchosen
      | readFile path =>
        have hread {prev : Option Bytes} (hprev : w.files (.onHost path) = prev) :
            Seen trouble r w prev := Or.inl (by rw [← hop.file _ rfl, hprev])
        show Follows rt cfg trouble now r w₀ (s.next (.op (.readFile path))
          ((w.files (.onHost path)).elim (.error failure) .ok)) w
        cases hprev : w.files (.onHost path) with
        | none => exact h.read (hop.reads rfl) (hread hprev)
        | some content => exact h.read (hop.reads rfl) (hread hprev)
      | pullContainerFile vmid path =>
        exact h.read (hop.reads rfl) (Or.inl (congrArg w.files (hop.file _ rfl)))
      | readVmFile node vmid path =>
        exact h.read (hop.reads rfl) (Or.inl (congrArg w.files (hop.file _ rfl)))
      | readDockerFile vmid container path inspect =>
        exact h.read (hop.reads rfl) (Or.inl (congrArg w.files (hop.file _ rfl)))
      | writeFile path content => exact h.put (hop.file _ rfl) (hop.puts content rfl)
      | pushContainerFile vmid path content perms =>
        exact h.put (hop.file _ rfl) (hop.puts content rfl)
      | writeVmFile node vmid path content => exact h.put (hop.file _ rfl) (hop.puts content rfl)
      | writeDockerFile vmid container path content inspect prevPerms newFile =>
        exact h.put (hop.file _ rfl) (hop.puts content rfl)
      | _ => exact h

/-- A write tool is a managed step of the store and a write of its file, in the world; where
it throws, no file has changed but by a write that threw. -/
theorem write_refines (rt : Runtime) (cfg : WriteConfig) (hasHistory : Bool)
    (trouble : Trouble WriteCall) (now : Instant) (r : WriteRequest) (w : World) :
    WriteStep rt cfg trouble now r w
      (play (answerWrite rt cfg.backup trouble now) w (r.handler rt cfg hasHistory)).2
      (play (answerWrite rt cfg.backup trouble now) w (r.handler rt cfg hasHistory)).1 := by
  obtain ⟨s, hfollows, hends⟩ := (Watch.meets_handler rt cfg hasHistory r).play
    (Follows rt cfg trouble now r w) follows_step follows_start
  generalize play (answerWrite rt cfg.backup trouble now) w (r.handler rt cfg hasHistory) = result
    at hfollows hends
  obtain ⟨outcome, w'⟩ := result
  dsimp only at hfollows hends ⊢
  cases outcome with
  | unfinished => exact hends
  | thrown e =>
    obtain ⟨hunwritten, hrecords⟩ := hends
    refine ⟨?_, (hfollows.unwritten hunwritten).imp_right ?_, ?_⟩
    · rw [hfollows.log, hrecords, List.append_nil]
    · rintro ⟨prev, content, hprev, htorn⟩
      exact ⟨prev, content, hfollows.seen prev hprev, htorn⟩
    · cases hbackup : s.backup with
      | none => exact Or.inl (hfollows.unstored hbackup)
      | some backup =>
        obtain ⟨prev, content, hprev, hcontent, hdisk⟩ := hfollows.stored backup hbackup
        exact Or.inr ⟨prev, content, hfollows.seen prev hprev, hcontent, congrArg Prod.snd hdisk⟩
  | returned outcome =>
    cases outcome with
    | preview result =>
      obtain ⟨-, hbackup, hattempted, hrecords⟩ := hends
      refine ⟨hfollows.untried hattempted, hfollows.unstored hbackup, ?_⟩
      rw [hfollows.log, hrecords, List.append_nil]
    | written result =>
      obtain ⟨-, hwritten, hone, backup, hbackup, hpath, hrevertible⟩ := hends
      obtain ⟨prev, content, hprev, hcontent, hfiles, hunmarked⟩ := hfollows.written hwritten
      obtain ⟨prev', content', hprev', hcontent', hdisk⟩ := hfollows.stored backup hbackup
      -- the write, the backup and the record speak of one reading of the file
      obtain rfl := Option.some.inj (hprev.symm.trans hprev')
      obtain rfl := Except.ok.inj (hcontent.symm.trans hcontent')
      obtain ⟨record, hrecord⟩ := List.length_eq_one_iff.mp hone
      obtain ⟨prev', content', backup', hprev', hcontent', hbackup', honrecord⟩ :=
        hfollows.recorded record (hrecord ▸ List.mem_singleton_self record)
      obtain rfl := Option.some.inj (hprev.symm.trans hprev')
      obtain rfl := Except.ok.inj (hcontent.symm.trans hcontent')
      obtain rfl := Option.some.inj (hbackup.symm.trans hbackup')
      exact ⟨prev, content, backup, record, hfollows.seen prev hprev, hcontent, hdisk, hfiles,
        hrecord ▸ hfollows.log, honrecord, hpath, hrevertible, hunmarked⟩

end

end HomelabMcp.Tools
