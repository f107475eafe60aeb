import HomelabMcp.Docker.UpdateCommands
import HomelabMcp.Tools.RollbackTrail

/-!
# An update and the audit log

The trail of a run, with what its mutating commands were answered.

- `composeUpdate_audited_iff`: an update that changed something is on the record once,
  unless a call threw from the pull on, or the old image could not be held.
-/

namespace HomelabMcp.Docker

open SlashPath Text Integrity Audit Guardrails Program Tools

variable {α β : Type}

structure UpdateSeen where
  /-- A command that changes images or containers was issued. -/
  mutated : Bool
  /-- That command, or a later one, threw. -/
  threw : Bool
  /-- The hold was tried; it is the first `docker tag`. -/
  tagged : Bool
  /-- It ended with another exit code than 0. -/
  unheld : Bool
  deriving DecidableEq

def isTag : DockerCommand → Bool
  | .tag _ _ => true
  | _ => false

def seeUpdate (seen : UpdateSeen) (cmd : DockerCommand) : Except Str ExecResult → UpdateSeen
  | .error _ => { seen with
      mutated := seen.mutated || cmd.mutates, threw := seen.threw || seen.mutated || cmd.mutates }
  | .ok res =>
    { mutated := seen.mutated || cmd.mutates, threw := seen.threw
      tagged := seen.tagged || isTag cmd
      unheld := seen.unheld || (isTag cmd && !seen.tagged && decide (res.exitCode ≠ some 0)) }

/-- Nothing went wrong that the log would miss. -/
def UpdateSeen.Fine (seen : UpdateSeen) : Prop :=
  seen.threw = false ∧ seen.unheld = false

/-- How a run that has ended stands with the log. -/
def Accounted (t : Trail UpdateSeen) (o : Outcome Str α) : Prop :=
  o ≠ .unfinished → ((t.seen.mutated = true → t.records.length = 1) ↔ t.seen.Fine)

/-- The trail of a run that has pulled, and to which nothing went wrong. -/
def going (slots : List Str) (refused tagged : Bool) : Trail UpdateSeen :=
  ⟨slots, [], refused, ⟨true, false, tagged, false⟩⟩

section
variable {slots : List Str} {refused tagged : Bool}

/-- A command throws: nothing is on the record. -/
theorem accounted_threw {t : Trail UpdateSeen} {o : Outcome Str α} (hrecords : t.records = [])
    (hmutated : t.seen.mutated = true) (hthrew : t.seen.threw = true) : Accounted t o := by
  refine fun _ => iff_of_false (fun h => ?_) fun h => ?_
  · rw [hrecords] at h
    exact Nat.zero_ne_one (h hmutated)
  · rw [h.1] at hthrew
    cases hthrew

/-- The program ends where it began, unless a command throws or it is cut off. -/
def Steady (s : Trail UpdateSeen) (p : ComposeTool α) : Prop :=
  (trail seeUpdate).Meets (fun t o =>
    match o with
    | .returned _ => t = s
    | .thrown _ => t = { s with seen := { s.seen with threw := true } }
    | .unfinished => True) s p

theorem Steady.bind {s : Trail UpdateSeen} {p : ComposeTool α} {f : α → ComposeTool β}
    (hp : Steady s p) (hf : ∀ a, Steady s (f a)) : Steady s (p >>= f) := by
  refine Monitor.meets_bind.mpr (Monitor.Meets.mono hp ?_)
  rintro t (a | e | _) h
  · obtain rfl := h
    exact hf a
  · exact h
  · exact h

theorem steady_pure {s : Trail UpdateSeen} (a : α) : Steady s (pure a : ComposeTool α) :=
  rfl

theorem steady_clock {s : Trail UpdateSeen} : Steady s clock :=
  ⟨trivial, fun _ => rfl⟩

theorem steady_ite {s : Trail UpdateSeen} {c : Prop} [Decidable c] {p q : ComposeTool α}
    (hp : Steady s p) (hq : Steady s q) : Steady s (if c then p else q) :=
  Monitor.meets_ite.mpr ⟨fun _ => hp, fun _ => hq⟩

/-- A command other than the hold. -/
theorem steady_exec {cmd : DockerCommand} (hcmd : isTag cmd = false ∨ tagged = true) :
    Steady (going slots refused tagged) (exec cmd) := by
  refine meets_exec.mpr ⟨trivial, fun res => ?_, fun e => rfl⟩
  show (⟨slots, [], refused, ⟨true, false, tagged || isTag cmd,
    false || (isTag cmd && !tagged && decide (res.exitCode ≠ some 0))⟩⟩ : Trail UpdateSeen) = _
  rcases hcmd with hcmd | rfl
  · rw [hcmd, Bool.or_false]
    rfl
  · rw [Bool.not_true, Bool.and_false, Bool.true_or]
    rfl

theorem steady_runStep {step : Str} {cmd : DockerCommand}
    (hcmd : isTag cmd = false ∨ tagged = true) :
    Steady (going slots refused tagged) (runStep step cmd) :=
  (steady_exec hcmd).bind fun _ => steady_pure _

theorem steady_runProbe {cfg : ComposeConfig} {probe : UpdateProbe} :
    Steady (going slots refused tagged) (runProbe cfg probe) :=
  (steady_exec (Or.inl rfl)).bind fun _ => steady_pure _

theorem steady_pollHealth {times : GateTimes} {container expectImageId : Str} {start : Int}
    (fuel : Nat) (samples : List HealthSample) (verdict : HealthVerdict) (warnings : List Str) :
    Steady (going slots refused tagged)
      (pollHealth times container expectImageId start fuel samples verdict warnings) := by
  induction fuel generalizing samples verdict warnings with
  | zero => trivial
  | succ fuel ih =>
    unfold pollHealth
    refine Steady.bind ?_ fun sample => ?_
    · refine (steady_exec (Or.inl rfl)).bind fun res => ?_
      exact steady_ite (steady_clock.bind fun t => steady_pure _) (steady_pure _)
    · refine steady_ite (steady_pure _) (steady_clock.bind fun t => ?_)
      exact steady_ite (steady_clock.bind fun t' => steady_pure _) (ih _ _ _)

theorem steady_healthGate {cfg : ComposeConfig} {input : ComposeUpdateInput} {fuel : Nat}
    {container expectImageId : Str} {warnings : List Str} :
    Steady (going slots refused tagged)
      (healthGate cfg input fuel container expectImageId warnings) := by
  unfold healthGate
  refine steady_clock.bind fun start => (steady_pollHealth _ _ _ _).bind fun polled => ?_
  obtain ⟨verdict, timedOut, warnings⟩ := polled
  cases timedOut with
  | some report => exact steady_pure _
  | none =>
    dsimp only
    split
    · refine steady_runProbe.bind fun pr => steady_clock.bind fun t => ?_
      exact steady_ite (steady_pure _) (steady_pure _)
    · exact steady_clock.bind fun t => steady_pure _

theorem steady_rollBackImage {cfg : ComposeConfig} {input : ComposeUpdateInput} {fuel : Nat}
    {run : Pulled} {warnings : List Str} :
    Steady (going slots refused true) (rollBackImage cfg input fuel run warnings) := by
  unfold rollBackImage
  refine (steady_runStep (Or.inr rfl)).bind fun ⟨retag, retagStep⟩ => ?_
  refine steady_ite (steady_pure _) ((steady_runStep (Or.inl rfl)).bind fun ⟨reUp, reUpStep⟩ => ?_)
  exact steady_ite (steady_healthGate.bind fun report => steady_pure _) (steady_pure _)

/-! ## From the pull on -/

/-- A step of a run that has pulled: what follows has to account for it. -/
theorem meets_steady {p : ComposeTool α} {f : α → ComposeTool β}
    (hp : Steady (going slots refused tagged) p)
    (hf : ∀ a, (trail seeUpdate).Meets Accounted (going slots refused tagged) (f a)) :
    (trail seeUpdate).Meets Accounted (going slots refused tagged) (p >>= f) := by
  refine Monitor.meets_bind.mpr (Monitor.Meets.mono hp ?_)
  rintro t (a | e | _) h
  · obtain rfl := h
    exact hf a
  · obtain rfl := h
    exact accounted_threw rfl rfl rfl
  · exact fun hended => absurd rfl hended

theorem meets_finish {cfg : ComposeConfig} {input : ComposeUpdateInput}
    {failed isRevertible : Bool} {result : ComposeUpdateResult} :
    (trail seeUpdate).Meets Accounted (going slots refused tagged)
      (finish cfg input failed isRevertible result) :=
  ⟨trivial, fun _ _ => iff_of_true (fun _ => rfl) ⟨rfl, rfl⟩⟩

/-- The breaker counts a rollback, which is nothing to the log. -/
theorem meets_countRollback {hasBreaker : Bool} {input : ComposeUpdateInput}
    {f : Unit → ComposeTool α}
    (hf : ∀ slots refused, (trail seeUpdate).Meets Accounted (going slots refused tagged) (f ())) :
    (trail seeUpdate).Meets Accounted (going slots refused tagged)
      (countRollback hasBreaker input >>= f) := by
  unfold countRollback
  cases hasBreaker with
  | false => exact hf slots refused
  | true => exact ⟨trivial, fun t => ⟨trivial, fun verdict => hf _ _⟩⟩

theorem meets_recoverUpdate {cfg : ComposeConfig} {hasBreaker : Bool} {input : ComposeUpdateInput}
    {fuel : Nat} {run : Pulled} {health : HealthReport} {warnings : List Str} :
    (trail seeUpdate).Meets Accounted (going slots refused true)
      (recoverUpdate cfg hasBreaker input fuel run health warnings) := by
  unfold recoverUpdate
  rw [Monitor.meets_ite]
  constructor
  · exact fun _ => meets_countRollback fun _ _ => meets_finish
  · intro _
    refine meets_steady steady_rollBackImage fun ⟨rollbackHealth, steps, warnings⟩ => ?_
    dsimp only
    rw [Monitor.meets_ite]
    exact ⟨fun _ => meets_countRollback fun _ _ => meets_finish, fun _ => meets_finish⟩

theorem meets_recreateUpdate {cfg : ComposeConfig} {hasBreaker : Bool}
    {input : ComposeUpdateInput} {fuel : Nat} {run : Pulled} :
    (trail seeUpdate).Meets Accounted (going slots refused true)
      (recreateUpdate cfg hasBreaker input fuel run) := by
  unfold recreateUpdate
  refine meets_steady (steady_runStep (Or.inl rfl)) fun ⟨up, upStep⟩ => ?_
  dsimp only
  have hjudged : ∀ (health : HealthReport) (warnings : List Str) (run : Pulled),
      (trail seeUpdate).Meets Accounted (going slots refused true)
        (if health.passed then
          finish cfg input false true { run.result .updated warnings with health := some health }
        else recoverUpdate cfg hasBreaker input fuel run health warnings) := by
    intro health warnings run
    rw [Monitor.meets_ite]
    exact ⟨fun _ => meets_finish, fun _ => meets_recoverUpdate⟩
  rw [Monitor.meets_ite]
  constructor
  · exact fun _ => meets_steady steady_healthGate fun ⟨health, warnings⟩ => hjudged _ _ _
  · exact fun _ => meets_steady (steady_pure _) fun ⟨health, warnings⟩ => hjudged _ _ _

/-- The hold was refused: the run throws, whatever becomes of the tag. -/
theorem meets_abandonUpdate {plan : Plan} {hold : ExecResult} :
    (trail seeUpdate).Meets Accounted ⟨slots, [], refused, ⟨true, false, true, true⟩⟩
      (abandonUpdate plan hold) := by
  unfold abandonUpdate runStep
  rw [Monitor.meets_bind, Monitor.meets_bind, meets_exec]
  refine ⟨trivial, fun res => ?_, fun e => accounted_threw rfl rfl rfl⟩
  exact fun _ => iff_of_false (fun h => Nat.zero_ne_one (h rfl)) fun h => Bool.false_ne_true h.2.symm

/-- The hold is the one step that may fail without throwing, and is not recorded then. -/
theorem meets_hold {cfg : ComposeConfig} {hasBreaker : Bool} {input : ComposeUpdateInput}
    {fuel : Nat} {run : Pulled} :
    (trail seeUpdate).Meets Accounted (going slots refused false) (do
      let (hold, holdStep) ←
        runStep "hold".toList (.tag run.plan.target.imageId run.plan.holdTag)
      if hold.exitCode ≠ some 0 then abandonUpdate run.plan hold
      else recreateUpdate cfg hasBreaker input fuel { run with steps := run.steps ++ [holdStep] }) := by
  unfold runStep
  rw [Monitor.meets_bind, Monitor.meets_bind, meets_exec]
  refine ⟨trivial, fun res => ?_, fun e => accounted_threw rfl rfl rfl⟩
  show (trail seeUpdate).Meets Accounted
    ⟨slots, [], refused, ⟨true, false, true, decide (res.exitCode ≠ some 0)⟩⟩
    (if res.exitCode ≠ some 0 then _ else _)
  by_cases h : res.exitCode = some 0
  · rw [if_neg (not_not.mpr h), decide_eq_false (not_not.mpr h)]
    exact meets_recreateUpdate
  · rw [if_pos h, decide_eq_true h]
    exact meets_abandonUpdate

/-- Nothing has been changed yet. -/
def untouched (slots : List Str) (refused : Bool) (records : List AuditFields) :
    Trail UpdateSeen :=
  ⟨slots, records, refused, ⟨false, false, false, false⟩⟩

theorem meets_performUpdate {cfg : ComposeConfig} {hasBreaker : Bool} {input : ComposeUpdateInput}
    {fuel : Nat} {plan : Plan} :
    (trail seeUpdate).Meets Accounted (untouched slots refused [])
      (performUpdate cfg hasBreaker input fuel plan) := by
  unfold performUpdate
  dsimp only
  show (trail seeUpdate).Meets Accounted _ (runStep _ _ >>= _)
  rw [Monitor.meets_bind]
  unfold runStep
  rw [Monitor.meets_bind, meets_exec]
  refine ⟨trivial, fun res => ?_, fun e => accounted_threw rfl rfl rfl⟩
  show (trail seeUpdate).Meets Accounted (going slots refused false) (if _ then _ else _)
  rw [Monitor.meets_ite]
  refine ⟨fun _ => meets_finish, fun _ => ?_⟩
  refine meets_steady (steady_runStep (Or.inl rfl)) fun ⟨resolved, resolveStep⟩ => ?_
  dsimp only
  rw [Monitor.meets_ite]
  refine ⟨fun _ => meets_finish, fun _ => ?_⟩
  refine meets_steady (steady_exec (Or.inl rfl)) fun info => ?_
  rw [Monitor.meets_ite]
  constructor
  · exact fun _ => meets_steady (steady_exec (Or.inl rfl)) fun held => meets_finish
  · exact fun _ => @meets_hold _ _ cfg hasBreaker input fuel ⟨plan, _, _, _⟩

/-! ## Before the pull -/

theorem ignores_read {cmd : DockerCommand} (hcmd : cmd.mutates = false) :
    (trail seeUpdate).Ignores False (untouched slots refused []) (exec cmd) := by
  have hsee : ∀ answer, seeUpdate ⟨false, false, false, false⟩ cmd answer =
      ⟨false, false, false, false⟩ := by
    intro answer
    have htag : isTag cmd = false := by
      cases cmd <;> first | rfl | cases hcmd
    cases answer with
    | ok res => simp only [seeUpdate, hcmd, htag, Bool.or_false, Bool.false_and]
    | error e => simp only [seeUpdate, hcmd, Bool.or_false]
  refine (Monitor.ignores_ask trivial fun answer => ?_).bind fun answer =>
    Monitor.ignores_orThrow answer
  show (⟨slots, [], refused, seeUpdate ⟨false, false, false, false⟩ cmd answer⟩ :
    Trail UpdateSeen) = _
  rw [hsee]
  rfl

theorem ignores_readModel {libs : Libraries} {p : ComposeProject} :
    (trail seeUpdate).Ignores False (untouched slots refused []) (readModel libs p) := by
  refine (ignores_read rfl).bind fun res => Monitor.ignores_ite (Monitor.ignores_throw _) ?_
  split
  · exact Monitor.ignores_throw _
  · exact Monitor.ignores_pure _

theorem untouched_overlooks : Overlooks (trail seeUpdate) (untouched slots refused []) := by
  intro cmd hcmd
  cases cmd with
  | envArgs | probe | imageInfo | imageId | healthSample =>
    exact ⟨trivial, fun answer => by cases answer <;> rfl⟩
  | identities | composeConfig | pull | tag | up => cases hcmd

theorem ignores_makePlan {target : ContainerIdentity} {p : ComposeProject}
    {service fileRef : Str} {warnings : List Str} :
    (trail seeUpdate).Ignores False (untouched slots refused [])
      (makePlan target p service fileRef warnings) := by
  refine Monitor.ignores_ite (Monitor.ignores_throw _) ?_
  exact (untouched_overlooks.look rfl).bind fun res => (Monitor.ignores_orThrow _).bind fun _ =>
    Monitor.ignores_pure _

theorem ignores_planUpdate {libs : Libraries} {cfg : ComposeConfig}
    {input : ComposeUpdateInput} :
    (trail seeUpdate).Ignores False (untouched slots refused []) (planUpdate libs cfg input) := by
  refine (ignores_read rfl).bind fun scan => Monitor.ignores_ite (Monitor.ignores_throw _) ?_
  refine (Monitor.ignores_orThrow _).bind fun target => ?_
  refine (Monitor.ignores_orThrow _).bind fun _ => ?_
  refine ignores_readModel.bind fun model => ?_
  refine (Monitor.ignores_orThrow _).bind fun fileRef => ?_
  refine untouched_overlooks.checkWatchtower.bind fun _ => ?_
  exact untouched_overlooks.checkProbe.bind fun _ => ignores_makePlan

/-- Before the pull a run only reads; a tripped breaker is put on the record. -/
theorem meets_resolveUpdate {libs : Libraries} {cfg : ComposeConfig} {hasBreaker : Bool}
    {input : ComposeUpdateInput} {post : Trail UpdateSeen → Outcome Str Plan → Prop}
    (hthrown : ∀ records e, post (untouched slots refused records) (.thrown e))
    (hplan : ∀ plan, post (untouched slots refused []) (.returned plan)) :
    (trail seeUpdate).Meets post (untouched slots refused [])
      (resolveUpdate libs cfg hasBreaker input) := by
  have hscan : (trail seeUpdate).Meets post (untouched slots refused [])
      (planUpdate libs cfg input) := by
    refine ignores_planUpdate.meets fun o hended => ?_
    cases o with
    | returned plan => exact hplan plan
    | thrown e => exact hthrown [] e
    | unfinished => exact absurd rfl hended
  have hcheck : (trail seeUpdate).Ignores False (untouched slots refused [])
      (orThrow (checkInput libs cfg input)) := Monitor.ignores_orThrow _
  unfold resolveUpdate
  refine hcheck.meets_bind (fun _ => ?_) (hthrown []) False.elim
  unfold peekGate
  rw [Monitor.meets_bind, Monitor.meets_ite]
  refine ⟨fun _ => ?_, fun _ => hscan⟩
  rw [Monitor.meets_bind, meets_peek]
  refine ⟨trivial, fun verdict => ?_⟩
  show (trail seeUpdate).Meets _ (untouched slots refused []) (refuseTripped _ _ verdict)
  refine Monitor.meets_ite.mpr ⟨fun _ => ?_, fun _ => hscan⟩
  exact ⟨trivial, fun _ => hthrown [_] _⟩

/-- A run of `compose_update` accounts for what it changed. -/
theorem meets_composeUpdateHandler (libs : Libraries) (cfg : ComposeConfig) (hasBreaker : Bool)
    (input : ComposeUpdateInput) (fuel : Nat) :
    (trail seeUpdate).Meets Accounted (untouched [] false [])
      (composeUpdateHandler libs cfg hasBreaker input fuel) := by
  unfold composeUpdateHandler
  rw [Monitor.meets_bind]
  refine meets_resolveUpdate (fun records e => ?_) fun plan => meets_performUpdate
  exact fun _ => iff_of_true nofun ⟨rfl, rfl⟩

end

/-- The trail of a run. -/
def updateTrail (events : List (Event DockerCall DockerAnswer)) : Trail UpdateSeen :=
  trailOf seeUpdate ⟨false, false, false, false⟩ events

/-- A run of `compose_update` that has ended has exactly one record if it issued a
command that changes something, if and only if no call threw from that command on, and
the hold, when it was tried, ended with exit code 0. -/
theorem composeUpdate_audited_iff (libs : Libraries) (cfg : ComposeConfig) (hasBreaker : Bool)
    (input : ComposeUpdateInput) (fuel : Nat) (w : Nat → (c : DockerCall) → DockerAnswer c) :
    let ran := run w 0 (composeUpdateHandler libs cfg hasBreaker input fuel)
    let t := updateTrail ran.1
    ran.2 ≠ .unfinished →
      ((t.seen.mutated = true → t.records.length = 1) ↔
        t.seen.threw = false ∧ t.seen.unheld = false) :=
  ((meets_composeUpdateHandler libs cfg hasBreaker input fuel).run w 0).2

/-! ## An update of one container -/

def nginxFile : Json :=
  .obj [("services".toList, .obj [("web".toList, .obj [("image".toList, .str "nginx:1.25".toList)])])]

/-- The YAML library reads that file, whatever the text. -/
def nginxLibraries : Libraries where
  parseYaml _ := .ok nginxFile
  parseUrl _ := none

def oldImage : Str :=
  "sha256:".toList ++ List.replicate 64 '0'

def newImage : Str :=
  "sha256:".toList ++ List.replicate 64 '1'

/-- The row of a container that compose made from `/opt/web/docker-compose.yml`. -/
def nginxRow : Str :=
  joinWith tab ["/web-1".toList, "c0ffee".toList, "nginx:1.25".toList, oldImage, "running".toList,
    "web".toList, "web".toList, "/opt/web/docker-compose.yml".toList, [], [], [], "bridge".toList,
    [], "null".toList]

def nginxConfig : ComposeConfig :=
  ⟨"pve".toList, none, [], 30000, none⟩

/-- `compose_update \x7b vmid: 104, composePath: "/opt/web/docker-compose.yml", service: "web" \x7d`. -/
def nginxUpdate : ComposeUpdateInput where
  vmid := 104
  composePath := "/opt/web/docker-compose.yml".toList
  service := "web".toList
  healthTimeoutSec := none
  stableSec := some 0
  probe := none
  allowWatchtowerManaged := false
  confirm := true
  overrideCircuitBreaker := false

/-- The registry has a newer image; `docker tag` exits with `tagExit`. -/
def nginxNode (tagExit : Int) : Nat → (c : DockerCall) → DockerAnswer c
  | _, .op .identities => .ok ⟨nginxRow, [], some 0⟩
  | _, .op (.imageId _) => .ok ⟨newImage, [], some 0⟩
  | _, .op (.tag _ _) => .ok ⟨[], [], some tagExit⟩
  | _, .op (.healthSample _) =>
    .ok ⟨joinWith tab ["running".toList, "healthy".toList, ['0'], "false".toList, newImage], [], some 0⟩
  | _, .op _ => .ok ⟨[], [], some 0⟩
  | _, .append _ => ()
  | _, .check _ | _, .peek _ => ⟨false, 1, 3, 600000⟩
  | _, .clock => 0

def nginxRun (tagExit : Int) :
    List (Event DockerCall DockerAnswer) × Outcome Str ComposeUpdateResult :=
  run (nginxNode tagExit) 0
    (composeUpdateHandler nginxLibraries nginxConfig true nginxUpdate 1)

theorem composeUpdate_audited_iff_nginx :
    (nginxRun 0).2 ≠ .unfinished ∧
      (((updateTrail (nginxRun 0).1).seen.mutated = true →
          (updateTrail (nginxRun 0).1).records.length = 1) ↔
        (updateTrail (nginxRun 0).1).seen.threw = false ∧
          (updateTrail (nginxRun 0).1).seen.unheld = false) :=
  have hended : (nginxRun 0).2 ≠ .unfinished := by
    intro h
    have hreturned : (match (nginxRun 0).2 with
        | .returned _ => true
        | _ => false) = true := by decide +kernel
    rw [h] at hreturned
    cases hreturned
  ⟨hended, composeUpdate_audited_iff nginxLibraries nginxConfig true nginxUpdate 1 (nginxNode 0) hended⟩

/-- The image is pulled, the old one cannot be held: the run throws, and no record
tells of the pull. -/
theorem not_composeUpdate_audited :
    (updateTrail (nginxRun 1).1).seen.mutated = true ∧
      (updateTrail (nginxRun 1).1).records = [] ∧
      (match (nginxRun 1).2 with
        | .thrown _ => true
        | _ => false) = true := by
  decide +kernel

end HomelabMcp.Docker
