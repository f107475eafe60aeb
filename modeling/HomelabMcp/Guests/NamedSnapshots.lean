import HomelabMcp.Guests.SnapshotTools

/-!
# Snapshots that a caller names (snapshotTools.ts)

Two of the snapshot tools hand a name of the caller's to a command of the node, past a check
of its first letters; listing hands it nothing.

- `named_fourWords_iff`: whatever the node answers, a command of these tools that names a
  snapshot is of the guest and the name that were asked for, passed the check, and is read
  as four words exactly when the name is plain.
-/

namespace HomelabMcp.Guests

open SlashPath Text Integrity Program Tools Shell

/-- The snapshot that a command names. -/
def Command.names : Command → Option (SnapshotVerb × GuestType × Nat × Str)
  | .rollbackSnapshot type vmid name => some (.rollback, type, vmid, name)
  | .deleteSnapshot type vmid name => some (.delete, type, vmid, name)
  | _ => none

theorem Command.text_of_names {command : Command} {verb : SnapshotVerb} {type : GuestType}
    {vmid : Nat} {name : Str} (h : command.names = some (verb, type, vmid, name)) :
    command.text = verb.command type vmid name := by
  cases command <;> cases h <;> rfl

/-- A call of a tool that creates none. -/
inductive SnapshotRequest
  | list (vmid : Nat)
  | rollback (input : SnapshotRollbackInput)
  | delete (input : SnapshotDeleteInput)

namespace SnapshotRequest

def program (cfg : SnapshotConfig) (hasBreaker : Bool) : SnapshotRequest → SnapshotTool Unit
  | .list vmid => do
    let _ ← snapshotListHandler vmid
    pure ()
  | .rollback input => do
    let _ ← snapshotRollbackHandler cfg hasBreaker input
    pure ()
  | .delete input => do
    let _ ← snapshotDeleteHandler cfg input
    pure ()

/-- The guest that is asked for, and the name that is given, if any. -/
def asks : SnapshotRequest → Nat × Option Str
  | .list vmid => (vmid, none)
  | .rollback input => (input.vmid, some input.name)
  | .delete input => (input.vmid, some input.name)

end SnapshotRequest

/-- A name goes into a command as it was given, and past the check. -/
def namesMonitor (request : SnapshotRequest) : Monitor SnapshotCall SnapshotAnswer Unit where
  next _ _ _ := ()
  allowed
    | _, .op command => ∀ verb type vmid name, command.names = some (verb, type, vmid, name) →
      request.asks = (vmid, some name) ∧ isMcpSnapshot name = true
    | _, _ => True

section
variable {request : SnapshotRequest}

theorem ignores_nameless {command : Command} (h : command.names = none) :
    (namesMonitor request).Ignores True () (exec command) := by
  refine meets_perform.mpr ⟨fun verb type vmid name hnames => ?_, fun _ => ⟨rfl, nofun⟩,
    fun _ => ⟨rfl, nofun⟩⟩
  rw [h] at hnames
  cases hnames

/-- A command whose exit code counts. -/
theorem ignores_counted {α : Type} {command : Command} {message : ExecResult → Str}
    {next : ExecResult → SnapshotTool α}
    (hcommand : (namesMonitor request).Ignores True () (exec command))
    (hnext : ∀ res, (namesMonitor request).Ignores True () (next res)) :
    (namesMonitor request).Ignores True () (do
      let res ← exec command
      if res.exitCode ≠ some 0 then throw (message res) else next res) :=
  hcommand.bind fun res => Monitor.ignores_ite (Monitor.ignores_throw _) (hnext res)

theorem ignores_detectGuestType (vmid : Nat) :
    (namesMonitor request).Ignores True () (detectGuestType vmid) :=
  (ignores_nameless rfl).bind fun _ => Monitor.ignores_ite (Monitor.ignores_pure _)
    (Monitor.ignores_pure _)

theorem ignores_listSnapshots (type : GuestType) (vmid : Nat) :
    (namesMonitor request).Ignores True () (listSnapshots type vmid) :=
  ignores_counted (ignores_nameless rfl) fun _ => Monitor.ignores_pure _

theorem ignores_guestState (type : GuestType) (vmid : Nat) :
    (namesMonitor request).Ignores True () (guestState type vmid) :=
  ignores_counted (ignores_nameless rfl) fun _ => Monitor.ignores_pure _

theorem ignores_stopForRollback (type : GuestType) (vmid : Nat) :
    (namesMonitor request).Ignores True () (stopForRollback type vmid) :=
  ignores_counted (ignores_nameless rfl) fun _ => Monitor.ignores_pure _

theorem ignores_append (record : Audit.AuditFields) :
    (namesMonitor request).Ignores True () (append record) :=
  Monitor.ignores_ask trivial fun _ => rfl

theorem ignores_breakerGate (useBreaker : Bool) (key : Str) (base : Audit.AuditFields) :
    (namesMonitor request).Ignores True () (breakerGate useBreaker key base) := by
  refine Monitor.ignores_ite (Monitor.Ignores.bind (Monitor.ignores_ask trivial fun _ => rfl)
    fun verdict => ?_) (Monitor.ignores_pure _)
  exact Monitor.ignores_ite ((ignores_append _).bind fun _ => Monitor.ignores_throw _)
    (Monitor.ignores_pure _)

theorem ignores_waitForGuestRunning (cfg : SnapshotConfig) (type : GuestType) (vmid fuel : Nat)
    (state : Str) (waited : Nat) :
    (namesMonitor request).Ignores True ()
      (waitForGuestRunning cfg type vmid fuel state waited) := by
  induction fuel generalizing state waited with
  | zero =>
    unfold waitForGuestRunning
    exact Monitor.ignores_ite ⟨rfl, fun _ => trivial⟩ (Monitor.ignores_pure _)
  | succ fuel ih =>
    unfold waitForGuestRunning
    exact Monitor.ignores_ite ((ignores_guestState type vmid).bind fun next => ih next _)
      (Monitor.ignores_pure _)

theorem ignores_restartAfterRollback (cfg : SnapshotConfig) (type : GuestType) (vmid : Nat) :
    (namesMonitor request).Ignores True () (restartAfterRollback cfg type vmid) := by
  refine (ignores_nameless rfl).bind fun _ => (ignores_guestState type vmid).bind fun first => ?_
  exact (ignores_waitForGuestRunning cfg type vmid _ first 0).bind fun _ =>
    Monitor.ignores_ite (Monitor.ignores_throw _) (Monitor.ignores_pure _)

end

theorem ignores_rollBack (cfg : SnapshotConfig) (input : SnapshotRollbackInput)
    (hname : isMcpSnapshot input.name = true) :
    (namesMonitor (.rollback input)).Ignores True () (rollBack cfg input) := by
  -- The one command of the handler that names a snapshot.
  have hrollback (type : GuestType) : (namesMonitor (.rollback input)).Ignores True ()
      (exec (.rollbackSnapshot type input.vmid input.name)) := by
    refine meets_perform.mpr ⟨?_, fun _ => ⟨rfl, nofun⟩, fun _ => ⟨rfl, nofun⟩⟩
    rintro _ _ _ _ ⟨⟩
    exact ⟨rfl, hname⟩
  refine (ignores_detectGuestType _).bind fun type => (ignores_guestState type _).bind
    fun state => ?_
  dsimp only
  have hafter {p : Prop} [Decidable p] {next : Unit → SnapshotTool SnapshotRollbackResult}
      {first : SnapshotTool Unit} (hfirst : (namesMonitor (.rollback input)).Ignores True () first)
      (hnext : ∀ u, (namesMonitor (.rollback input)).Ignores True () (next u)) :
      (namesMonitor (.rollback input)).Ignores True ()
        (if p then first >>= next else pure () >>= next) :=
    Monitor.ignores_ite (hfirst.bind hnext) ((Monitor.ignores_pure ()).bind hnext)
  refine Monitor.ignores_ite (Monitor.ignores_throw _) ?_
  refine hafter (ignores_stopForRollback type _) fun _ =>
    ignores_counted (hrollback type) fun _ => ?_
  exact hafter (ignores_restartAfterRollback cfg type _) fun _ => (ignores_append _).bind
    fun _ => Monitor.ignores_pure _

theorem ignores_snapshotDeleteHandler (cfg : SnapshotConfig) (input : SnapshotDeleteInput) :
    (namesMonitor (.delete input)).Ignores True () (snapshotDeleteHandler cfg input) := by
  unfold snapshotDeleteHandler
  split
  · exact Monitor.ignores_throw _
  · next hname =>
    have hdelete (type : GuestType) : (namesMonitor (.delete input)).Ignores True ()
        (exec (.deleteSnapshot type input.vmid input.name)) := by
      refine meets_perform.mpr ⟨?_, fun _ => ⟨rfl, nofun⟩, fun _ => ⟨rfl, nofun⟩⟩
      rintro _ _ _ _ ⟨⟩
      exact ⟨rfl, by simpa using hname⟩
    exact (ignores_detectGuestType _).bind fun type => ignores_counted (hdelete type)
      fun _ => (ignores_append _).bind fun _ => Monitor.ignores_pure _

theorem ignores_request (cfg : SnapshotConfig) (hasBreaker : Bool) (request : SnapshotRequest) :
    (namesMonitor request).Ignores True () (request.program cfg hasBreaker) := by
  cases request with
  | list vmid =>
    refine Monitor.Ignores.bind ?_ fun _ => Monitor.ignores_pure ()
    exact (ignores_detectGuestType vmid).bind fun type => (ignores_listSnapshots type vmid).bind
      fun _ => Monitor.ignores_pure _
  | rollback input =>
    refine Monitor.Ignores.bind ?_ fun _ => Monitor.ignores_pure ()
    unfold snapshotRollbackHandler
    refine Monitor.ignores_ite (Monitor.ignores_throw _) ?_
    split
    · exact Monitor.ignores_throw _
    · next hname =>
      exact (ignores_breakerGate _ _ _).bind fun _ =>
        ignores_rollBack cfg input (by simpa using hname)
  | delete input =>
    exact (ignores_snapshotDeleteHandler cfg input).bind fun _ => Monitor.ignores_pure ()

/-- Whatever the node answers, a command that names a snapshot names the one of the guest that
was asked for, which passed the check; a shell reads it as its four words exactly when every
character of the name stands for itself. -/
theorem named_fourWords_iff (cfg : SnapshotConfig) (hasBreaker : Bool) (request : SnapshotRequest)
    (w : Nat → (c : SnapshotCall) → SnapshotAnswer c) {event : Event SnapshotCall SnapshotAnswer}
    (hevent : event ∈ (run w 0 (request.program cfg hasBreaker)).1) {command : Command}
    (hcommand : event.call = .op command) {verb : SnapshotVerb} {type : GuestType} {vmid : Nat}
    {name : Str} (hnames : command.names = some (verb, type, vmid, name)) :
    request.asks = (vmid, some name) ∧ isMcpSnapshot name = true ∧
      (tokenize command.text =
          [.word type.text, .word verb.word, .word (numeral vmid), .word name] ↔
        isPlain name = true) := by
  obtain ⟨hallows, -⟩ := (ignores_request cfg hasBreaker request).run w 0
  obtain ⟨_, hallowed⟩ := hallows.of_mem hevent
  rw [hcommand] at hallowed
  obtain ⟨hasks, hchecked⟩ := hallowed verb type vmid name hnames
  rw [Command.text_of_names hnames]
  exact ⟨hasks, hchecked, tokenize_command_iff verb type vmid hchecked⟩

end HomelabMcp.Guests
