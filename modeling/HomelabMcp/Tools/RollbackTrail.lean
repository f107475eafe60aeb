import Mathlib.Algebra.GroupWithZero.Nat
import HomelabMcp.Guests.BackupTools
import HomelabMcp.Tools.RevertFile

/-!
# Rollbacks and the audit log

What one call of a rollback verb leaves behind is a `Trail`: the slots it took at
the breaker, the records it appended, and what the node answered meanwhile.

- `meets_revertFileHandler`: a revert that took a slot is on the record, once.
- `rollbacks_onRecord_iff`: over any run of the three verbs, the slots and the
  records agree exactly when the other two went through.
-/

namespace HomelabMcp.Tools

open SlashPath Text Backup Integrity Audit Guardrails Program Guests

variable {κ : Type} {ρ : κ → Type} {τ α : Type}

structure Trail (τ : Type) where
  /-- The keys that `check` was asked about. -/
  slots : List Str
  records : List AuditFields
  /-- The breaker has tripped. -/
  refused : Bool
  /-- What was seen of the node. -/
  seen : τ

/-- Follows a run; `see` is how an answer adds to what is seen of the node. -/
def trail (see : τ → (c : κ) → Except Str (ρ c) → τ) :
    Monitor (ToolCall κ) (ToolAnswer ρ) (Trail τ) where
  next t
    | .op c, answer => { t with seen := see t.seen c answer }
    | .append record, _ => { t with records := t.records ++ [record] }
    | .check key, verdict =>
      { t with slots := t.slots ++ [key], refused := verdict.tripped }
    | .peek _, _ | .clock, _ => t
  allowed _ _ := True

/-- What some events leave behind. -/
def trailOf (see : τ → (c : κ) → Except Str (ρ c) → τ) (seen : τ)
    (events : List (Event (ToolCall κ) (ToolAnswer ρ))) : Trail τ :=
  (trail see).after ⟨[], [], false, seen⟩ events

section
variable {see : τ → (c : κ) → Except Str (ρ c) → τ} {seen : τ}

/-- At the breaker a call takes no slot, or is refused on the record, or goes on. -/
theorem meets_breakerGate {useBreaker : Bool} {key : Str} {base : AuditFields}
    {post : Trail τ → Outcome Str Unit → Prop}
    (hskip : useBreaker = false → post ⟨[], [], false, seen⟩ (.returned ()))
    (hrefused : ∀ record e, post ⟨[key], [record], true, seen⟩ (.thrown e))
    (hpassed : post ⟨[key], [], false, seen⟩ (.returned ())) :
    (trail see).Meets post ⟨[], [], false, seen⟩ (breakerGate useBreaker key base) := by
  unfold breakerGate
  cases useBreaker with
  | false => exact hskip rfl
  | true =>
    rw [if_pos rfl, Monitor.meets_bind, meets_check]
    refine ⟨trivial, fun verdict => ?_⟩
    show (trail see).Meets post ⟨[key], [], verdict.tripped, seen⟩ (refuseTripped key base verdict)
    unfold refuseTripped
    cases verdict.tripped with
    | true =>
      rw [if_pos rfl, Monitor.meets_bind, meets_append]
      exact ⟨trivial, hrefused _ _⟩
    | false => exact hpassed

end

/-! ## revert_file -/

/-- Nothing is seen of the node. -/
def blind : Unit → (c : RevertCall) → Except Str (RevertResult c) → Unit :=
  fun _ _ _ => ()

section
variable {t : Trail Unit}

theorem ignores_revertAsk (c : RevertCall) :
    (trail blind).Ignores False t (ask (ToolCall.op c) : RevertTool (Except Str (RevertResult c))) :=
  Monitor.ignores_ask trivial fun _ => rfl

theorem ignores_revertOp (c : RevertCall) : (trail blind).Ignores False t (revertOp c) :=
  (ignores_revertAsk c).bind fun answer => Monitor.ignores_orThrow answer

/-- The path that is given has to be the target's own. -/
theorem ignores_targetOfBackup (backupPath : Str) (path : Option Str) :
    (trail blind).Ignores False t (targetOfBackup backupPath path) := by
  have hmatch (p : Str) (target : BackupTarget) : (trail blind).Ignores False t
      (if p ≠ target.remotePath then
        throw ("Path mismatch: supplied \"".toList ++ p ++
          "\" does not match backup target \"".toList ++ target.remotePath ++ "\"".toList)
      else pure target : RevertTool BackupTarget) := by
    split
    · exact Monitor.ignores_throw _
    · exact Monitor.ignores_pure _
  refine (ignores_revertAsk _).bind fun answer => ?_
  cases answer with
  | ok target =>
    cases path with
    | none => exact Monitor.ignores_pure _
    | some p => exact hmatch p target
  | error e =>
    cases path with
    | none => exact Monitor.ignores_throw _
    | some p =>
      cases p with
      | nil => exact Monitor.ignores_throw _
      | cons c p => exact hmatch (c :: p) (BackupTarget.onHost (c :: p))

theorem ignores_resolveBackup (input : RevertFileInput) :
    (trail blind).Ignores False t (resolveBackup input) := by
  unfold resolveBackup
  split
  · exact (ignores_targetOfBackup _ _).bind fun target => Monitor.ignores_pure _
  · exact Monitor.ignores_throw _
  · exact Monitor.ignores_throw _
  · refine (Monitor.ignores_orThrow _).bind fun target => ?_
    refine (ignores_revertOp _).bind fun versions => ?_
    split
    · exact Monitor.ignores_pure _
    · exact Monitor.ignores_throw _

theorem ignores_readTarget (target : BackupTarget) :
    (trail blind).Ignores False t (readTarget target) := by
  unfold readTarget
  split
  · split
    · exact Monitor.ignores_throw _
    · exact (ignores_revertOp _).bind fun _ => (ignores_revertOp _).bind fun content =>
        Monitor.ignores_pure _
  · split
    · exact Monitor.ignores_throw _
    · exact (ignores_revertOp _).bind fun _ => (ignores_revertOp _).bind fun node =>
        (ignores_revertOp _).bind fun content => Monitor.ignores_pure _
  · split
    · exact Monitor.ignores_throw _
    · exact Monitor.ignores_throw _
    · exact Monitor.ignores_throw _
    · exact (ignores_revertOp _).bind fun _ => (ignores_revertOp _).bind fun inspect =>
        (ignores_revertOp _).bind fun content => Monitor.ignores_pure _
  · refine (ignores_revertAsk _).bind fun answer => ?_
    split
    · exact Monitor.ignores_pure _
    · exact Monitor.ignores_pure _

theorem ignores_writeTarget (cfg : RevertConfig) (path : Str) (content : Bytes)
    (located : Located) : (trail blind).Ignores False t (writeTarget cfg path content located) := by
  cases located with
  | host => exact ignores_revertOp _
  | pct vmid => exact (ignores_revertOp _).bind fun perms => ignores_revertOp _
  | qm vmid node => exact ignores_revertOp _
  | docker vmid container inspect =>
    unfold writeTarget
    dsimp only
    split
    · exact (Monitor.ignores_pure _).bind fun prevPerms => ignores_revertOp _
    · exact (ignores_revertOp _).bind fun prevPerms => ignores_revertOp _

theorem ignores_restoredContent (backupPath : Str) (target : BackupTarget)
    (current : Option Bytes) :
    (trail blind).Ignores False t (restoredContent backupPath target current) := by
  refine (ignores_revertOp _).bind fun restored => ?_
  cases restored with
  | none => exact Monitor.ignores_throw _
  | some content =>
    cases current with
    | none => exact Monitor.ignores_pure _
    | some old => exact (ignores_revertAsk _).bind fun answer => Monitor.ignores_pure _

/-- All that a revert does before it is recorded. -/
theorem ignores_revertTarget (cfg : RevertConfig) (hasHistory : Bool) (backupPath : Str)
    (target : BackupTarget) :
    (trail blind).Ignores False t (revertTarget cfg hasHistory backupPath target) := by
  refine (ignores_readTarget target).bind fun found => ?_
  refine (ignores_restoredContent _ _ _).bind fun restored => ?_
  refine (ignores_writeTarget _ _ _ _).bind fun _ => ?_
  split
  · exact (ignores_revertOp _).bind fun committed => Monitor.ignores_pure _
  · exact Monitor.ignores_pure _

/-- A call either takes no slot, or takes one and is on the record once. -/
def OnRecord (t : Trail τ) : Prop :=
  t.slots = [] ∨ t.slots.length = 1 ∧ t.records.length = 1

theorem meets_revertFileHandler (sha256 : Bytes → Bytes) (cfg : RevertConfig)
    (hasHistory hasBreaker : Bool) (input : RevertFileInput) :
    (trail blind).Meets (fun t _ => OnRecord t) ⟨[], [], false, ()⟩
      (revertFileHandler sha256 cfg hasHistory hasBreaker input) := by
  have hnone : ∀ records refused, OnRecord (⟨[], records, refused, ()⟩ : Trail Unit) :=
    fun _ _ => Or.inl rfl
  unfold revertFileHandler
  rw [Monitor.meets_bind]
  refine (ignores_resolveBackup input).meets fun o hended => ?_
  cases o with
  | unfinished => exact absurd rfl hended
  | thrown e => exact hnone _ _
  | returned found =>
    obtain ⟨backupPath, target⟩ := found
    show (trail blind).Meets _ _ _
    dsimp only
    cases validatePath target.remotePath cfg.pathAllowlist (some cfg.pathDenylist) with
    | some reason => exact hnone _ _
    | none =>
      -- Whether a slot was taken or not, the body appends one record.
      have hbody : ∀ slots, slots.length ≤ 1 → (trail blind).Meets (fun t _ => OnRecord t)
          ⟨slots, [], false, ()⟩ (tryCatch
            (do
              let done ← revertTarget cfg hasHistory backupPath target
              append (revertRecord sha256 cfg input backupPath target done.1 done.2.1 done.2.2.1
                done.2.2.2)
              pure (RevertFileResult.mk backupPath done.2.2.1.length (recordedVmid target)))
            fun message => do
              append (revertFailure cfg input backupPath target message)
              throw message) := by
        intro slots hslots
        have honce : ∀ record, OnRecord (⟨slots, [record], false, ()⟩ : Trail Unit) := by
          intro record
          cases slots with
          | nil => exact Or.inl rfl
          | cons key rest => exact Or.inr ⟨le_antisymm hslots (by simp), rfl⟩
        rw [Monitor.meets_tryCatch, Monitor.meets_bind]
        refine (ignores_revertTarget cfg hasHistory backupPath target).meets fun o hended => ?_
        cases o with
        | unfinished => exact absurd rfl hended
        | thrown e => exact ⟨trivial, fun _ => honce _⟩
        | returned done => exact ⟨trivial, fun _ => honce _⟩
      show (trail blind).Meets _ _ (breakerGate _ _ _ >>= _)
      rw [Monitor.meets_bind]
      refine meets_breakerGate (fun _ => hbody [] (by simp)) (fun record e => ?_)
        (hbody [_] (by simp))
      exact Or.inr ⟨rfl, rfl⟩

end

/-! ## snapshot_rollback -/

/-- What the node answered the commands of a rollback. -/
structure SnapshotSeen where
  /-- No command threw, and those whose exit code counts ended with 0. -/
  obeyed : Bool
  /-- The states of the guest, in the order they were told. -/
  states : List Str

def seeSnapshot (seen : SnapshotSeen) : Command → Except Str ExecResult → SnapshotSeen
  | _, .error _ => { seen with obeyed := false }
  | .pctList, .ok _ | .start _ _, .ok _ => seen
  | .status _ _, .ok res =>
    if res.exitCode = some 0 then
      { seen with states := seen.states ++ [parseGuestStatus res.stdout] }
    else { seen with obeyed := false }
  | _, .ok res => if res.exitCode = some 0 then seen else { seen with obeyed := false }

/-- The node did what a rollback asks of it: every command succeeded, and a guest
that ran may be stopped and runs again at the last look. -/
def SnapshotSeen.WentThrough (input : SnapshotRollbackInput) (seen : SnapshotSeen) : Prop :=
  seen.obeyed = true ∧ (seen.states.head? = some running →
    input.stopIfRunning = true ∧ seen.states.getLast? = some running)

/-- A call past the breaker, with the slots it took: it is on the record, once, if the
node did what it asks, and else it is not. -/
def LeftBy (slots : List Str) (Went : τ → Prop) (t : Trail τ) : Prop :=
  t.slots = slots ∧ t.refused = false ∧
    (Went t.seen ∧ t.records.length = 1 ∨ ¬Went t.seen ∧ t.records = [])

section
variable {slots : List Str} {seen : SnapshotSeen}

theorem meets_guestState {type : GuestType} {vmid : Nat}
    {post : Trail SnapshotSeen → Outcome Str Str → Prop}
    (hreturned : ∀ state,
      post ⟨slots, [], false, { seen with states := seen.states ++ [state] }⟩ (.returned state))
    (hthrown : ∀ e, post ⟨slots, [], false, { seen with obeyed := false }⟩ (.thrown e)) :
    (trail seeSnapshot).Meets post ⟨slots, [], false, seen⟩ (guestState type vmid) := by
  unfold guestState
  rw [Monitor.meets_bind, meets_exec]
  refine ⟨trivial, fun res => ?_, hthrown⟩
  show (trail seeSnapshot).Meets post ⟨slots, [], false, if res.exitCode = some 0 then _ else _⟩
    (if res.exitCode ≠ some 0 then _ else _)
  by_cases h : res.exitCode = some 0
  · rw [if_pos h, if_neg (not_not.mpr h)]
    exact hreturned _
  · rw [if_neg h, if_pos h]
    exact hthrown _

/-- How the polls end: the first state stays, and the last is the one returned. -/
def PolledFrom (slots : List Str) (first : Option Str) (t : Trail SnapshotSeen) :
    Outcome Str Str → Prop
  | .returned final => ∃ states, t = ⟨slots, [], false, ⟨true, states⟩⟩ ∧ states.head? = first ∧
      states.getLast? = some final
  | .thrown _ => ∃ states, t = ⟨slots, [], false, ⟨false, states⟩⟩
  | .unfinished => ∃ states, t = ⟨slots, [], false, ⟨true, states⟩⟩ ∧ states.head? = first ∧
      states.getLast? ≠ some running

theorem meets_waitForGuestRunning {cfg : SnapshotConfig} {type : GuestType} {vmid : Nat}
    {first : Option Str} (fuel : Nat) (state : Str) (waited : Nat) (states : List Str)
    (hhead : states.head? = first) (hlast : states.getLast? = some state) :
    (trail seeSnapshot).Meets (PolledFrom slots first) ⟨slots, [], false, ⟨true, states⟩⟩
      (waitForGuestRunning cfg type vmid fuel state waited) := by
  induction fuel generalizing state waited states with
  | zero =>
    unfold waitForGuestRunning
    split
    · next h =>
      refine ⟨states, rfl, hhead, fun hrunning => h.1 ?_⟩
      exact Option.some.inj (hlast.symm.trans hrunning)
    · exact ⟨states, rfl, hhead, hlast⟩
  | succ fuel ih =>
    unfold waitForGuestRunning
    split
    · rw [Monitor.meets_bind]
      refine meets_guestState (fun next => ?_) fun e => ⟨states, rfl⟩
      refine ih next _ (states ++ [next]) ?_ List.getLast?_concat
      cases states with
      | nil => cases hlast
      | cons s l => exact hhead
    · exact ⟨states, rfl, hhead, hlast⟩

theorem meets_detectGuestType {vmid : Nat}
    {post : Trail SnapshotSeen → Outcome Str GuestType → Prop}
    (hreturned : ∀ type, post ⟨slots, [], false, seen⟩ (.returned type))
    (hthrown : ∀ e, post ⟨slots, [], false, { seen with obeyed := false }⟩ (.thrown e)) :
    (trail seeSnapshot).Meets post ⟨slots, [], false, seen⟩ (detectGuestType vmid) := by
  unfold detectGuestType
  rw [Monitor.meets_bind, meets_exec]
  refine ⟨trivial, fun res => ?_, hthrown⟩
  show (trail seeSnapshot).Meets post _ (if _ then pure GuestType.pct else pure GuestType.qm)
  rw [Monitor.meets_ite]
  exact ⟨fun _ => hreturned .pct, fun _ => hreturned .qm⟩

/-- A command whose exit code counts: the rest is only run when it is 0. -/
theorem meets_counted {cmd : Command} {rest : SnapshotTool α} {message : ExecResult → Str}
    {post : Trail SnapshotSeen → Outcome Str α → Prop}
    (hcounts : ∀ res, seeSnapshot seen cmd (.ok res) =
      if res.exitCode = some 0 then seen else { seen with obeyed := false })
    (hthrown : ∀ e, post ⟨slots, [], false, { seen with obeyed := false }⟩ (.thrown e))
    (hrest : (trail seeSnapshot).Meets post ⟨slots, [], false, seen⟩ rest) :
    (trail seeSnapshot).Meets post ⟨slots, [], false, seen⟩ (do
      let res ← exec cmd
      if res.exitCode ≠ some 0 then throw (message res) else rest) := by
  rw [Monitor.meets_bind, meets_exec]
  refine ⟨trivial, fun res => ?_, fun e => ?_⟩
  · show (trail seeSnapshot).Meets post ⟨slots, [], false, seeSnapshot seen cmd (.ok res)⟩
      (if res.exitCode ≠ some 0 then throw (message res) else rest)
    rw [hcounts]
    by_cases h : res.exitCode = some 0
    · rw [if_pos h, if_neg (not_not.mpr h)]
      exact hrest
    · rw [if_neg h, if_pos h]
      exact hthrown _
  · show post ⟨slots, [], false, seeSnapshot seen cmd (.error e)⟩ _
    cases cmd <;> exact hthrown e

/-- After a restart the guest runs, or the call has failed and the answers say so. -/
theorem meets_restartAfterRollback {cfg : SnapshotConfig} {type : GuestType} {vmid : Nat}
    {first : Str} {post : Trail SnapshotSeen → Outcome Str Unit → Prop}
    (hreturned : ∀ states, states.head? = some first → states.getLast? = some running →
      post ⟨slots, [], false, ⟨true, states⟩⟩ (.returned ()))
    (hdown : ∀ states o, o ≠ .returned () → states.head? = some first →
      states.getLast? ≠ some running → post ⟨slots, [], false, ⟨true, states⟩⟩ o)
    (hdisobeyed : ∀ states e, post ⟨slots, [], false, ⟨false, states⟩⟩ (.thrown e)) :
    (trail seeSnapshot).Meets post ⟨slots, [], false, ⟨true, [first]⟩⟩
      (restartAfterRollback cfg type vmid) := by
  unfold restartAfterRollback
  rw [Monitor.meets_bind, meets_exec]
  refine ⟨trivial, fun _ => ?_, fun e => hdisobeyed _ e⟩
  show (trail seeSnapshot).Meets _ ⟨slots, [], false, ⟨true, [first]⟩⟩ (guestState type vmid >>= _)
  rw [Monitor.meets_bind]
  refine meets_guestState (fun state => ?_) fun e => hdisobeyed _ e
  show (trail seeSnapshot).Meets _ _ (waitForGuestRunning _ _ _ _ _ _ >>= _)
  rw [Monitor.meets_bind]
  refine (@meets_waitForGuestRunning _ _ _ _ (some first) _ _ _ _ rfl rfl).mono ?_
  rintro t o hpolled
  cases o with
  | returned final =>
    obtain ⟨states, rfl, hhead, hlast⟩ := hpolled
    show (trail seeSnapshot).Meets post _ (if final ≠ running then _ else pure ())
    by_cases hfinal : final = running
    · rw [if_neg (not_not.mpr hfinal)]
      exact hreturned states hhead (hfinal ▸ hlast)
    · rw [if_pos hfinal]
      refine hdown states _ nofun hhead fun hrunning => hfinal ?_
      exact Option.some.inj (hlast.symm.trans hrunning)
  | thrown e =>
    obtain ⟨states, rfl⟩ := hpolled
    exact hdisobeyed states e
  | unfinished =>
    obtain ⟨states, rfl, hhead, hlast⟩ := hpolled
    exact hdown states _ nofun hhead hlast

/-- Behind the breaker, a rollback is recorded if and only if it went through. -/
theorem meets_rollBack (cfg : SnapshotConfig) (input : SnapshotRollbackInput) :
    (trail seeSnapshot).Meets (fun t _ => LeftBy slots (SnapshotSeen.WentThrough input) t)
      ⟨slots, [], false, ⟨true, []⟩⟩ (rollBack cfg input) := by
  have hleft : ∀ {obeyed states}, ¬SnapshotSeen.WentThrough input ⟨obeyed, states⟩ →
      LeftBy slots (SnapshotSeen.WentThrough input) ⟨slots, [], false, ⟨obeyed, states⟩⟩ :=
    fun h => ⟨rfl, rfl, Or.inr ⟨h, rfl⟩⟩
  have hdisobeyed : ∀ states, LeftBy slots (SnapshotSeen.WentThrough input)
      ⟨slots, [], false, ⟨false, states⟩⟩ := fun states =>
    hleft fun h => Bool.false_ne_true h.1
  have hrecorded : ∀ {states}, SnapshotSeen.WentThrough input ⟨true, states⟩ →
      ∀ record, LeftBy slots (SnapshotSeen.WentThrough input)
        ⟨slots, [record], false, ⟨true, states⟩⟩ :=
    fun h record => ⟨rfl, rfl, Or.inl ⟨h, rfl⟩⟩
  unfold rollBack
  rw [Monitor.meets_bind]
  refine meets_detectGuestType (fun type => ?_) fun e => hdisobeyed []
  show (trail seeSnapshot).Meets _ _ (guestState type input.vmid >>= _)
  rw [Monitor.meets_bind]
  refine meets_guestState (fun state => ?_) fun e => hdisobeyed []
  dsimp only [Monitor.andThen, List.nil_append]
  by_cases hrunning : state = running
  · simp only [hrunning, decide_true, if_true, true_and]
    cases hstop : input.stopIfRunning with
    | false =>
      exact hleft fun h => Bool.false_ne_true (hstop.symm.trans (h.2 rfl).1)
    | true =>
      show (trail seeSnapshot).Meets _ _ (stopForRollback type input.vmid >>= _)
      rw [Monitor.meets_bind]
      refine meets_counted (fun _ => rfl) (fun e => hdisobeyed _) ?_
      refine meets_counted (fun _ => rfl) (fun e => hdisobeyed _) ?_
      rw [Monitor.meets_bind]
      refine meets_restartAfterRollback (fun states hhead hlast => ?_)
        (fun states o hended hhead hlast => ?_) fun states e => hdisobeyed states
      · exact ⟨trivial, fun _ => hrecorded ⟨rfl, fun _ => ⟨hstop, hlast⟩⟩ _⟩
      · have hfailed : LeftBy slots (SnapshotSeen.WentThrough input)
            ⟨slots, [], false, ⟨true, states⟩⟩ := hleft fun h => hlast (h.2 hhead).2
        cases o with
        | returned _ => exact absurd rfl hended
        | thrown e => exact hfailed
        | unfinished => exact hfailed
  · simp only [hrunning, decide_false, Bool.false_eq_true, false_and, if_false]
    refine meets_counted (fun _ => rfl) (fun e => hdisobeyed _) ?_
    refine ⟨trivial, fun _ => hrecorded ⟨rfl, fun hhead => ?_⟩ _⟩
    exact absurd (Option.some.inj hhead) hrunning

end

/-- How a call of a rollback verb ends: before the breaker, refused, or past it. -/
def Settled (key : Str) (Went : τ → Prop) (t : Trail τ) : Prop :=
  t.slots = [] ∨ (t.slots = [key] ∧ t.refused = true ∧ t.records.length = 1) ∨
    LeftBy [key] Went t

theorem meets_snapshotRollbackHandler (cfg : SnapshotConfig) (hasBreaker : Bool)
    (input : SnapshotRollbackInput) :
    (trail seeSnapshot).Meets (fun t _ => Settled (rollbackTargetKey (.guest input.vmid))
        (SnapshotSeen.WentThrough input) t)
      ⟨[], [], false, ⟨true, []⟩⟩ (snapshotRollbackHandler cfg hasBreaker input) := by
  unfold snapshotRollbackHandler
  rw [Monitor.meets_ite]
  refine ⟨fun _ => Or.inl rfl, fun _ => ?_⟩
  rw [Monitor.meets_ite]
  refine ⟨fun _ => Or.inl rfl, fun _ => ?_⟩
  rw [Monitor.meets_bind]
  refine meets_breakerGate (fun _ => ?_) (fun record e => Or.inr (Or.inl ⟨rfl, rfl, rfl⟩)) ?_
  · exact (meets_rollBack cfg input).mono fun t _ h => Or.inl h.1
  · exact (meets_rollBack cfg input).mono fun t _ h => Or.inr (Or.inr h)

/-! ## guest_backup_restore -/

/-- What the node answered the calls of a restore. -/
structure RestoreSeen where
  /-- No call threw. -/
  obeyed : Bool
  guests : List Guest
  archives : List BackupArchive
  state : Option Str

def seeRestore (seen : RestoreSeen) : (c : NodeCall) → Except Str (NodeResult c) → RestoreSeen
  | _, .error _ => { seen with obeyed := false }
  | .listGuests, .ok guests => { seen with guests }
  | .listBackupArchives _ _, .ok archives => { seen with archives }
  | .guestStatus _ _, .ok state => { seen with state := some state }
  | _, .ok _ => seen

/-- The node did what a restore asks of it: it knows the guest and the archive, which
is the server's, a guest that runs may be stopped, and no call failed. -/
structure RestoreSeen.WentThrough (input : GuestBackupRestoreInput) (seen : RestoreSeen) :
    Prop where
  volid : isVolid input.archive = true
  obeyed : seen.obeyed = true
  guest : ∃ g ∈ seen.guests, g.vmid = input.vmid
  archive : ∃ a, seen.archives.find? (fun a => a.volid == input.archive) = some a ∧
    isMcpArchive a.notes = true
  stoppable : seen.state = some running → input.stopIfRunning = true

section
variable {slots : List Str} {seen : RestoreSeen}

/-- A call of the node: what follows goes on with its answer. -/
theorem meets_nodeCall {c : NodeCall} {f : NodeResult c → BackupTool α}
    {post : Trail RestoreSeen → Outcome Str α → Prop}
    (hthrown : ∀ e, post ⟨slots, [], false, { seen with obeyed := false }⟩ (.thrown e))
    (hrest : ∀ a, (trail seeRestore).Meets post
      ⟨slots, [], false, seeRestore seen c (.ok a)⟩ (f a)) :
    (trail seeRestore).Meets post ⟨slots, [], false, seen⟩
      (perform (ρ := NodeResult) c >>= f) := by
  rw [Monitor.meets_bind, meets_perform]
  refine ⟨trivial, hrest, fun e => ?_⟩
  show post ⟨slots, [], false, seeRestore seen c (.error e)⟩ _
  cases c <;> exact hthrown e

/-- Behind the breaker, a restore is recorded if and only if it went through. -/
theorem meets_restoreGuest (cfg : BackupToolsConfig) (node : Node)
    (input : GuestBackupRestoreInput) :
    (trail seeRestore).Meets (fun t _ => LeftBy slots (RestoreSeen.WentThrough input) t)
      ⟨slots, [], false, ⟨true, [], [], none⟩⟩ (restoreGuest cfg node input) := by
  have hleft : ∀ {seen : RestoreSeen}, ¬RestoreSeen.WentThrough input seen →
      LeftBy slots (RestoreSeen.WentThrough input) ⟨slots, [], false, seen⟩ :=
    fun h => ⟨rfl, rfl, Or.inr ⟨h, rfl⟩⟩
  have hdisobeyed : ∀ guests archives state, LeftBy slots (RestoreSeen.WentThrough input)
      ⟨slots, [], false, ⟨false, guests, archives, state⟩⟩ := fun _ _ _ =>
    hleft fun h => Bool.false_ne_true h.obeyed
  unfold restoreGuest
  rw [Monitor.meets_bind, Monitor.meets_orThrow]
  unfold volidStorage
  constructor
  · intro storage hstorage
    have hvolid : isVolid input.archive = true := by
      by_contra h
      rw [if_neg h] at hstorage
      cases hstorage
    show (trail seeRestore).Meets _ _ (resolveType input.vmid >>= _)
    rw [Monitor.meets_bind]
    refine meets_nodeCall (fun e => hdisobeyed _ _ _) fun guests => ?_
    show (trail seeRestore).Meets _ ⟨slots, [], false, ⟨true, guests, [], none⟩⟩ _
    cases hguest : guests.find? fun g => g.vmid == input.vmid with
    | none =>
      refine hleft fun h => ?_
      obtain ⟨g, hg, hvmid⟩ := h.guest
      exact List.find?_eq_none.mp hguest g hg (beq_iff_eq.mpr hvmid)
    | some g =>
      have hvmid := List.find?_some hguest
      have hknown : ∃ g ∈ guests, g.vmid = input.vmid :=
        ⟨g, List.mem_of_find?_eq_some hguest, beq_iff_eq.mp hvmid⟩
      refine meets_nodeCall (fun e => hdisobeyed _ _ _) fun archives => ?_
      show (trail seeRestore).Meets _ ⟨slots, [], false, ⟨true, guests, archives, none⟩⟩
        (orThrow (findRestorable input.vmid storage input.archive archives) >>= _)
      rw [Monitor.meets_bind, Monitor.meets_orThrow]
      unfold findRestorable
      cases harchive : archives.find? fun a => a.volid == input.archive with
      | none =>
        refine ⟨nofun, fun e _ => hleft fun h => ?_⟩
        obtain ⟨a, ha, -⟩ := h.archive
        exact Option.some_ne_none a (ha.symm.trans harchive)
      | some a =>
        dsimp only
        by_cases hmcp : isMcpArchive a.notes = true
        · rw [if_pos hmcp]
          refine ⟨fun _ _ => ?_, nofun⟩
          refine meets_nodeCall (fun e => hdisobeyed _ _ _) fun status => ?_
          show (trail seeRestore).Meets _
            ⟨slots, [], false, ⟨true, guests, archives, some status⟩⟩ _
          have hrecorded : (status = running → input.stopIfRunning = true) → ∀ record,
              LeftBy slots (RestoreSeen.WentThrough input)
                ⟨slots, [record], false, ⟨true, guests, archives, some status⟩⟩ :=
            fun hstop record => ⟨rfl, rfl, Or.inl ⟨⟨hvolid, rfl, hknown, ⟨a, harchive, hmcp⟩,
              fun h => hstop (Option.some.inj h)⟩, rfl⟩⟩
          by_cases hrunning : status = running
          · simp only [hrunning, decide_true, if_true, true_and]
            cases hstop : input.stopIfRunning with
            | false =>
              exact hleft fun h => Bool.false_ne_true (hstop.symm.trans (h.stoppable rfl))
            | true =>
              refine meets_nodeCall (fun e => hdisobeyed _ _ _) fun _ => ?_
              refine meets_nodeCall (fun e => hdisobeyed _ _ _) fun _ => ?_
              refine meets_nodeCall (fun e => hdisobeyed _ _ _) fun _ => ?_
              exact ⟨trivial, fun _ => hrunning ▸ hrecorded (fun _ => hstop) _⟩
          · simp only [hrunning, decide_false, Bool.false_eq_true, false_and, if_false]
            refine meets_nodeCall (fun e => hdisobeyed _ _ _) fun _ => ?_
            exact ⟨trivial, fun _ => hrecorded (fun h => absurd h hrunning) _⟩
        · rw [if_neg hmcp]
          refine ⟨nofun, fun e _ => hleft fun h => ?_⟩
          obtain ⟨a', ha', hmcp'⟩ := h.archive
          exact hmcp (Option.some.inj (harchive.symm.trans ha') ▸ hmcp')
  · intro e he
    refine hleft fun h => ?_
    rw [if_pos h.volid] at he
    cases he

theorem meets_guestBackupRestoreHandler (cfg : BackupToolsConfig) (node : Node)
    (hasBreaker : Bool) (input : GuestBackupRestoreInput) :
    (trail seeRestore).Meets (fun t _ => Settled (rollbackTargetKey (.guest input.vmid))
        (RestoreSeen.WentThrough input) t)
      ⟨[], [], false, ⟨true, [], [], none⟩⟩
      (guestBackupRestoreHandler cfg node hasBreaker input) := by
  unfold guestBackupRestoreHandler
  rw [Monitor.meets_ite]
  refine ⟨fun _ => Or.inl rfl, fun _ => ?_⟩
  rw [Monitor.meets_bind]
  refine meets_breakerGate (fun _ => ?_) (fun record e => Or.inr (Or.inl ⟨rfl, rfl, rfl⟩)) ?_
  · exact (meets_restoreGuest cfg node input).mono fun t _ h => Or.inl h.1
  · exact (meets_restoreGuest cfg node input).mono fun t _ h => Or.inr (Or.inr h)

end

/-! ## Runs -/

/-- One call of a rollback verb, and the outside it runs against. -/
inductive Attempt
  | revertFile (cfg : RevertConfig) (hasHistory hasBreaker : Bool) (input : RevertFileInput)
      (w : Nat → (c : ToolCall RevertCall) → ToolAnswer RevertResult c)
  | snapshotRollback (cfg : SnapshotConfig) (hasBreaker : Bool) (input : SnapshotRollbackInput)
      (w : Nat → (c : SnapshotCall) → SnapshotAnswer c)
  | guestBackupRestore (cfg : BackupToolsConfig) (node : Node) (hasBreaker : Bool)
      (input : GuestBackupRestoreInput) (w : Nat → (c : BackupCall) → BackupAnswer c)

namespace Attempt

def snapshotTrail (cfg : SnapshotConfig) (hasBreaker : Bool) (input : SnapshotRollbackInput)
    (w : Nat → (c : SnapshotCall) → SnapshotAnswer c) : Trail SnapshotSeen :=
  trailOf seeSnapshot ⟨true, []⟩ (run w 0 (snapshotRollbackHandler cfg hasBreaker input)).1

def restoreTrail (cfg : BackupToolsConfig) (node : Node) (hasBreaker : Bool)
    (input : GuestBackupRestoreInput) (w : Nat → (c : BackupCall) → BackupAnswer c) :
    Trail RestoreSeen :=
  trailOf seeRestore ⟨true, [], [], none⟩
    (run w 0 (guestBackupRestoreHandler cfg node hasBreaker input)).1

/-- The slots taken and the records appended, and whether the breaker refused. -/
def left (sha256 : Bytes → Bytes) : Attempt → Trail Unit
  | .revertFile cfg hasHistory hasBreaker input w =>
    trailOf blind () (run w 0 (revertFileHandler sha256 cfg hasHistory hasBreaker input)).1
  | .snapshotRollback cfg hasBreaker input w =>
    { snapshotTrail cfg hasBreaker input w with seen := () }
  | .guestBackupRestore cfg node hasBreaker input w =>
    { restoreTrail cfg node hasBreaker input w with seen := () }

/-- The node did what the call asks of it. -/
def WentThrough : Attempt → Prop
  -- A revert that fails is recorded too.
  | .revertFile _ _ _ _ _ => True
  | .snapshotRollback cfg hasBreaker input w =>
    SnapshotSeen.WentThrough input (snapshotTrail cfg hasBreaker input w).seen
  | .guestBackupRestore cfg node hasBreaker input w =>
    RestoreSeen.WentThrough input (restoreTrail cfg node hasBreaker input w).seen

variable {sha256 : Bytes → Bytes}

/-- One call: no slot, or one slot and at most one record, which is there unless the
call was let through and then failed. -/
theorem left_cases (a : Attempt) : (a.left sha256).slots = [] ∨
    (a.left sha256).slots.length = 1 ∧
      ((a.left sha256).records.length = 1 ↔ (a.left sha256).refused = true ∨ a.WentThrough) := by
  have hrollback : ∀ {τ : Type} {Went : τ → Prop} {key : Str} {t : Trail τ}, Settled key Went t →
      t.slots = [] ∨ t.slots.length = 1 ∧
        (t.records.length = 1 ↔ t.refused = true ∨ Went t.seen) := by
    rintro τ Went key t (h | ⟨hslots, hrefused, hrecords⟩ | ⟨hslots, hrefused, hwent | hfailed⟩)
    · exact Or.inl h
    · exact Or.inr ⟨congrArg List.length hslots, iff_of_true hrecords (Or.inl hrefused)⟩
    · exact Or.inr ⟨congrArg List.length hslots, iff_of_true hwent.2 (Or.inr hwent.1)⟩
    · refine Or.inr ⟨congrArg List.length hslots, iff_of_false ?_ ?_⟩
      · rw [hfailed.2]
        exact Nat.zero_ne_one
      · rw [hrefused]
        exact not_or_intro Bool.false_ne_true hfailed.1
  cases a with
  | revertFile cfg hasHistory hasBreaker input w =>
    refine ((meets_revertFileHandler sha256 cfg hasHistory hasBreaker input).run w 0).2.imp_right ?_
    exact fun h => ⟨h.1, iff_of_true h.2 (Or.inr trivial)⟩
  | snapshotRollback cfg hasBreaker input w =>
    exact hrollback ((meets_snapshotRollbackHandler cfg hasBreaker input).run w 0).2
  | guestBackupRestore cfg node hasBreaker input w =>
    exact hrollback ((meets_guestBackupRestoreHandler cfg node hasBreaker input).run w 0).2

end Attempt

variable (sha256 : Bytes → Bytes)

/-- How many slots of a key a run took. -/
def slotsFor (key : Str) (attempts : List Attempt) : Nat :=
  (attempts.map fun a => (a.left sha256).slots.count key).sum

/-- How many records the calls appended that took a slot of the key. -/
def recordsFor (key : Str) (attempts : List Attempt) : Nat :=
  (attempts.map fun a =>
    if key ∈ (a.left sha256).slots then (a.left sha256).records.length else 0).sum

variable {sha256} in
/-- Where each call that took a slot is on the record once, the numbers agree. -/
theorem slotsFor_eq_recordsFor {attempts : List Attempt}
    (honce : ∀ a ∈ attempts, (a.left sha256).slots ≠ [] → (a.left sha256).records.length = 1)
    (key : Str) : slotsFor sha256 key attempts = recordsFor sha256 key attempts := by
  unfold slotsFor recordsFor
  refine congrArg List.sum (List.map_congr_left fun a ha => ?_)
  split
  · next hmem =>
    rw [honce a ha (List.ne_nil_of_mem hmem)]
    rcases @Attempt.left_cases sha256 a with hnone | ⟨hone, -⟩
    · rw [hnone] at hmem
      cases hmem
    · obtain ⟨k, hk⟩ := List.length_eq_one_iff.mp hone
      rw [hk] at hmem ⊢
      rw [List.mem_singleton.mp hmem, List.count_singleton_self]
  · next hmem => exact List.count_eq_zero.mpr hmem

/-- Over any run of rollbacks, each call that takes a slot is on the record exactly
once, and the slots of every key are as many as the records, if and only if each of
them was refused by the breaker or went through. -/
theorem rollbacks_onRecord_iff (attempts : List Attempt) :
    ((∀ a ∈ attempts, (a.left sha256).slots ≠ [] → (a.left sha256).records.length = 1) ∧
      ∀ key, slotsFor sha256 key attempts = recordsFor sha256 key attempts) ↔
    ∀ a ∈ attempts, (a.left sha256).slots ≠ [] →
      (a.left sha256).refused = true ∨ a.WentThrough := by
  have hiff : ∀ a : Attempt, (a.left sha256).slots ≠ [] →
      ((a.left sha256).records.length = 1 ↔ (a.left sha256).refused = true ∨ a.WentThrough) := by
    intro a hslots
    rcases @Attempt.left_cases sha256 a with hnone | ⟨-, hrecords⟩
    · exact absurd hnone hslots
    · exact hrecords
  constructor
  · exact fun h a ha hslots => (hiff a hslots).mp (h.1 a ha hslots)
  · intro h
    have honce : ∀ a ∈ attempts, (a.left sha256).slots ≠ [] →
        (a.left sha256).records.length = 1 :=
      fun a ha hslots => (hiff a hslots).mpr (h a ha hslots)
    exact ⟨honce, slotsFor_eq_recordsFor honce⟩

/-- A node whose guests all run. -/
def busyNode : Nat → (c : SnapshotCall) → SnapshotAnswer c
  | _, .op (.status _ _) => .ok ⟨"status: running".toList, [], some 0⟩
  | _, .op _ => .ok ⟨[], [], some 0⟩
  | _, .append _ => ()
  | _, .check _ | _, .peek _ => ⟨false, 1, 3, 600000⟩
  | _, .clock => 0

/-- A rollback of a guest that runs and may not be stopped. -/
def busyRollback : Attempt :=
  .snapshotRollback ⟨"pve".toList, 1, false, 2000, 60000⟩ true
    ⟨105, "mcp-20260609-213000".toList, true, false, false⟩ busyNode

/-- It takes a slot, and is not on the record. -/
theorem not_rollbacks_onRecord :
    (busyRollback.left Digest.lengthPrefixed).slots = ["guest/105".toList] ∧
      (busyRollback.left Digest.lengthPrefixed).records = [] ∧
      slotsFor Digest.lengthPrefixed "guest/105".toList [busyRollback] ≠
        recordsFor Digest.lengthPrefixed "guest/105".toList [busyRollback] := by
  decide +kernel

end HomelabMcp.Tools
