import HomelabMcp.Docker.ComposeUpdate

/-!
# The commands of one update

Which commands a run of `compose_update` issues, by what it has learnt and the tags
it has set.

- `keeps_composeUpdateHandler`: a run issues a command only when it may.
-/

namespace HomelabMcp.Docker

open SlashPath Text Integrity Audit Guardrails Program Tools

/-- The commands that only look at what is there. -/
def looks : DockerCommand → Bool
  | .envArgs _ | .probe _ _ | .imageInfo _ | .imageId _ | .healthSample _ => true
  | .identities | .composeConfig _ | .pull _ _ | .tag _ _ | .up _ _ _ => false

/-! ## What only looks -/

section
variable {σ : Type} {M : Monitor DockerCall DockerAnswer σ} {s : σ} {cut : Prop}

/-- The monitor takes no notice of a look. -/
def Overlooks (M : Monitor DockerCall DockerAnswer σ) (s : σ) : Prop :=
  ∀ cmd, looks cmd = true → M.allowed s (.op cmd) ∧ ∀ answer, M.next s (.op cmd) answer = s

theorem Overlooks.look (h : Overlooks M s) {cmd : DockerCommand} (hcmd : looks cmd = true) :
    M.Ignores cut s (exec cmd) :=
  (Monitor.ignores_ask (h cmd hcmd).1 (h cmd hcmd).2).bind fun answer =>
    Monitor.ignores_orThrow answer

theorem Overlooks.runProbe (h : Overlooks M s) {cfg : ComposeConfig} {probe : UpdateProbe} :
    M.Ignores cut s (runProbe cfg probe) :=
  (h.look rfl).bind fun _ => Monitor.ignores_pure _

theorem Overlooks.checkWatchtower (h : Overlooks M s) {input : ComposeUpdateInput}
    {running : List ContainerIdentity} {target : ContainerIdentity} :
    M.Ignores cut s (checkWatchtower input running target) := by
  refine Monitor.Ignores.bind ?_ fun watchtower => ?_
  · unfold loadWatchtower
    split
    · exact Monitor.ignores_pure _
    · exact (h.look rfl).bind fun res =>
        Monitor.ignores_ite (Monitor.ignores_pure _) (Monitor.ignores_pure _)
  · cases watchtower with
    | none => exact Monitor.ignores_pure _
    | some wt =>
      exact Monitor.ignores_ite (Monitor.ignores_pure _)
        (Monitor.ignores_ite (Monitor.ignores_throw _) (Monitor.ignores_pure _))

theorem Overlooks.checkProbe (h : Overlooks M s) {libs : Libraries} {cfg : ComposeConfig}
    {input : ComposeUpdateInput} {running : List ContainerIdentity}
    {target : ContainerIdentity} :
    M.Ignores cut s (checkProbe libs cfg input running target) := by
  unfold Docker.checkProbe
  split
  · exact Monitor.ignores_pure _
  · refine h.runProbe.bind fun baseline => ?_
    exact Monitor.ignores_ite (Monitor.ignores_throw _) (Monitor.ignores_pure _)

end

/-! ## One run -/

/-- The project of a container, as its labels tell it. -/
def composeOf (input : ComposeUpdateInput) (c : ContainerIdentity) : ComposeProject :=
  ⟨input.composePath, c.composeProject, (parseEnvFileLabel c.composeEnvFiles).1⟩

/-- What a run has learnt, and the tags it has set. -/
structure Progress where
  target : Option ContainerIdentity
  fileRef : Option Str
  tagged : List (Str × Str)

def Progress.start : Progress :=
  ⟨none, none, []⟩

/-- The container and the reference that a run is about. -/
def Progress.Knows (u : Progress) (c : ContainerIdentity) (ref : Str) : Prop :=
  u.target = some c ∧ u.fileRef = some ref ∧ isDigest c.imageId = true

def learn (libs : Libraries) (input : ComposeUpdateInput) (u : Progress) (cmd : DockerCommand)
    (answer : Except Str ExecResult) : Progress :=
  match cmd, answer with
  | .identities, .ok res =>
    if res.exitCode = some 0 then
      { u with target := (resolveTarget input (parseContainerIdentities res.stdout)).toOption }
    else u
  | .composeConfig _, .ok res =>
    if res.exitCode = some 0 then
      { u with fileRef := (parseCompose libs.parseYaml res.stdout >>= resolveRef input).toOption }
    else u
  | .tag source target, .ok res =>
    if res.exitCode = some 0 then { u with tagged := u.tagged ++ [(source, target)] } else u
  | _, _ => u

/-- When a run may issue a command. -/
def MayIssue (input : ComposeUpdateInput) (u : Progress) : DockerCommand → Prop
  | .identities => u = .start
  | .composeConfig p => u.fileRef = none ∧ u.tagged = [] ∧
      ∃ c, u.target = some c ∧ p = composeOf input c
  | .pull p service => u.tagged = [] ∧
      ∃ c ref, u.Knows c ref ∧ p = composeOf input c ∧ service = input.service
  | .tag source target => ∃ c ref, u.Knows c ref ∧
      -- The hold, or the reference again when that fails; at last the way back.
      (u.tagged = [] ∧ source = c.imageId ∧
          (target = planHold c ref input.service ∨ target = ref) ∨
        u.tagged = [(c.imageId, planHold c ref input.service)] ∧
          source = planHold c ref input.service ∧ target = ref)
  | .up p pullNever service => ∃ c ref, u.Knows c ref ∧ p = composeOf input c ∧
      service = input.service ∧
      u.tagged = (c.imageId, planHold c ref input.service) ::
        if pullNever then [(planHold c ref input.service, ref)] else []
  | .envArgs _ | .probe _ _ | .imageInfo _ | .imageId _ | .healthSample _ => True

def updateMonitor (libs : Libraries) (input : ComposeUpdateInput) :
    Monitor DockerCall DockerAnswer Progress where
  next
    | u, .op cmd, answer => learn libs input u cmd answer
    | u, .append _, _ | u, .check _, _ | u, .peek _, _ | u, .clock, _ => u
  allowed
    | u, .op cmd => MayIssue input u cmd
    | _, .append _ | _, .check _ | _, .peek _ | _, .clock => True

section
variable {libs : Libraries} {cfg : ComposeConfig} {input : ComposeUpdateInput} {u : Progress}
  {α β : Type}

theorem ignores_command {cmd : DockerCommand} (hallowed : MayIssue input u cmd)
    (hlearn : ∀ answer, learn libs input u cmd answer = u) :
    (updateMonitor libs input).Ignores True u (exec cmd) :=
  (Monitor.ignores_ask hallowed hlearn).bind fun answer => Monitor.ignores_orThrow answer

theorem overlooks : Overlooks (updateMonitor libs input) u := by
  intro cmd hcmd
  cases cmd with
  | envArgs | probe | imageInfo | imageId | healthSample => exact ⟨trivial, fun _ => rfl⟩
  | identities | composeConfig | pull | tag | up => cases hcmd

theorem ignores_clock : (updateMonitor libs input).Ignores True u clock :=
  Monitor.ignores_ask trivial fun _ => rfl

theorem ignores_append {record : AuditFields} :
    (updateMonitor libs input).Ignores True u (append record) :=
  Monitor.ignores_ask trivial fun _ => rfl

theorem ignores_pollHealth {times : GateTimes} {container expectImageId : Str} {start : Int}
    (fuel : Nat) (samples : List HealthSample) (verdict : HealthVerdict) (warnings : List Str) :
    (updateMonitor libs input).Ignores True u
      (pollHealth times container expectImageId start fuel samples verdict warnings) := by
  induction fuel generalizing samples verdict warnings with
  | zero => exact ⟨rfl, fun _ => trivial⟩
  | succ fuel ih =>
    unfold pollHealth
    refine Monitor.Ignores.bind ?_ fun sample => ?_
    · refine (overlooks.look rfl).bind fun res => ?_
      exact Monitor.ignores_ite (ignores_clock.bind fun t => Monitor.ignores_pure _)
        (Monitor.ignores_pure _)
    · refine Monitor.ignores_ite (Monitor.ignores_pure _) (ignores_clock.bind fun t => ?_)
      exact Monitor.ignores_ite (ignores_clock.bind fun t' => Monitor.ignores_pure _) (ih _ _ _)

theorem ignores_healthGate {fuel : Nat} {container expectImageId : Str} {warnings : List Str} :
    (updateMonitor libs input).Ignores True u
      (healthGate cfg input fuel container expectImageId warnings) := by
  unfold healthGate
  refine ignores_clock.bind fun start => (ignores_pollHealth _ _ _ _).bind fun polled => ?_
  obtain ⟨verdict, timedOut, warnings⟩ := polled
  cases timedOut with
  | some report => exact Monitor.ignores_pure _
  | none =>
    dsimp only
    split
    · refine overlooks.runProbe.bind fun pr => ignores_clock.bind fun t => ?_
      exact Monitor.ignores_ite (Monitor.ignores_pure _) (Monitor.ignores_pure _)
    · exact ignores_clock.bind fun t => Monitor.ignores_pure _

/-! ### From the pull on -/

/-- What a run goes by once it has a plan. -/
structure Planned (input : ComposeUpdateInput) (plan : Plan) (u : Progress) : Prop where
  knows : u.Knows plan.target plan.fileRef
  compose : plan.compose = composeOf input plan.target
  holdTag : plan.holdTag = planHold plan.target plan.fileRef input.service

/-- Any outcome will do. -/
def anyOutcome : Progress → Outcome Str α → Prop :=
  fun _ _ => True

theorem keeps_of_ignores {p : ComposeTool α} (hp : (updateMonitor libs input).Ignores True u p) :
    (updateMonitor libs input).Meets anyOutcome u p :=
  hp.meets fun _ _ => trivial

/-- A part that the run learns nothing from, and what comes after it. -/
theorem keeps_bind {p : ComposeTool α} {f : α → ComposeTool β}
    (hp : (updateMonitor libs input).Ignores True u p)
    (hf : ∀ a, (updateMonitor libs input).Meets anyOutcome u (f a)) :
    (updateMonitor libs input).Meets anyOutcome u (p >>= f) :=
  hp.meets_bind hf (fun _ => trivial) fun _ => trivial

theorem ignores_finish {failed isRevertible : Bool} {result : ComposeUpdateResult} :
    (updateMonitor libs input).Ignores True u (finish cfg input failed isRevertible result) :=
  ignores_append.bind fun _ => Monitor.ignores_pure _

theorem ignores_countRollback {hasBreaker : Bool} :
    (updateMonitor libs input).Ignores True u (countRollback hasBreaker input) := by
  unfold countRollback
  refine Monitor.ignores_ite (ignores_clock.bind fun t => ?_) (Monitor.ignores_pure _)
  exact Monitor.Ignores.bind (Monitor.ignores_ask trivial fun _ => rfl) fun _ =>
    Monitor.ignores_pure _

/-- The run sets a tag, and goes on by its exit code. -/
theorem keeps_tag {step : Str} {source target : Str} {f : ExecResult × UpdateStep → ComposeTool β}
    (hallowed : MayIssue input u (.tag source target))
    (hf : ∀ res step, (updateMonitor libs input).Meets anyOutcome
      (if res.exitCode = some 0 then { u with tagged := u.tagged ++ [(source, target)] } else u)
      (f (res, step))) :
    (updateMonitor libs input).Meets anyOutcome u (runStep step (.tag source target) >>= f) := by
  unfold runStep
  rw [Monitor.meets_bind, Monitor.meets_bind, meets_exec]
  refine ⟨hallowed, fun res => ?_, fun e => trivial⟩
  exact hf res _

/-- A pull and a recreate change nothing that the run keeps in mind. -/
theorem ignores_up {step : Str} {p : ComposeProject} {pullNever : Bool} {service : Str}
    (hallowed : MayIssue input u (.up p pullNever service)) :
    (updateMonitor libs input).Ignores True u (runStep step (.up p pullNever service)) :=
  (ignores_command hallowed fun _ => rfl).bind fun _ => Monitor.ignores_pure _

/-- The old image is held: it is tagged back before the service is made from it. -/
theorem keeps_rollBackImage {fuel : Nat} {run : Pulled} {warnings : List Str}
    (hplan : Planned input run.plan u)
    (hheld : u.tagged = [(run.plan.target.imageId, run.plan.holdTag)]) :
    (updateMonitor libs input).Meets anyOutcome u
      (rollBackImage cfg input fuel run warnings) := by
  have hhold := hplan.holdTag
  unfold rollBackImage
  refine keeps_tag ⟨_, _, hplan.knows, Or.inr ⟨hhold ▸ hheld, hhold, rfl⟩⟩ fun retag step => ?_
  dsimp only
  by_cases hretag : retag.exitCode = some 0
  · rw [if_neg (not_not.mpr hretag), if_pos hretag]
    refine keeps_bind (ignores_up ⟨_, _, hplan.knows, hplan.compose, rfl, ?_⟩) fun reUp => ?_
    · rw [hheld, hhold]
      rfl
    · refine keeps_of_ignores (Monitor.ignores_ite ?_ ?_)
      · exact ignores_healthGate.bind fun _ => Monitor.ignores_pure _
      · exact Monitor.ignores_pure _
  · rw [if_pos hretag]
    trivial

theorem keeps_recoverUpdate {hasBreaker : Bool} {fuel : Nat} {run : Pulled}
    {health : HealthReport} {warnings : List Str} (hplan : Planned input run.plan u)
    (hheld : u.tagged = [(run.plan.target.imageId, run.plan.holdTag)]) :
    (updateMonitor libs input).Meets anyOutcome u
      (recoverUpdate cfg hasBreaker input fuel run health warnings) := by
  unfold recoverUpdate
  refine Monitor.meets_ite.mpr ⟨fun _ => ?_, fun _ => ?_⟩
  · exact keeps_bind ignores_countRollback fun _ => keeps_of_ignores ignores_finish
  · rw [Monitor.meets_bind]
    refine (keeps_rollBackImage hplan hheld).mono fun t o _ => ?_
    cases o with
    | returned rolled =>
      refine keeps_of_ignores ?_
      exact Monitor.ignores_ite (ignores_countRollback.bind fun _ => ignores_finish) ignores_finish
    | thrown | unfinished => trivial

theorem keeps_recreateUpdate {hasBreaker : Bool} {fuel : Nat} {run : Pulled}
    (hplan : Planned input run.plan u)
    (hheld : u.tagged = [(run.plan.target.imageId, run.plan.holdTag)]) :
    (updateMonitor libs input).Meets anyOutcome u
      (recreateUpdate cfg hasBreaker input fuel run) := by
  unfold recreateUpdate
  refine keeps_bind (ignores_up ⟨_, _, hplan.knows, hplan.compose, rfl, ?_⟩) fun up => ?_
  · rw [hheld, hplan.holdTag]
    rfl
  · have hjudged : ∀ (health : HealthReport) (warnings : List Str) (steps : List UpdateStep),
        (updateMonitor libs input).Meets anyOutcome u
          (if health.passed then
            finish cfg input false true
              { { run with steps }.result .updated warnings with health := some health }
          else recoverUpdate cfg hasBreaker input fuel { run with steps } health warnings) := by
      intro health warnings steps
      refine Monitor.meets_ite.mpr ⟨fun _ => keeps_of_ignores ignores_finish, fun _ => ?_⟩
      exact keeps_recoverUpdate hplan hheld
    dsimp only
    rw [Monitor.meets_ite]
    constructor
    · exact fun _ => keeps_bind ignores_healthGate fun health => hjudged _ _ _
    · exact fun _ => keeps_bind (Monitor.ignores_pure _) fun health => hjudged _ _ _

theorem keeps_abandonUpdate {plan : Plan} {hold : ExecResult} (hplan : Planned input plan u)
    (htagged : u.tagged = []) :
    (updateMonitor libs input).Meets anyOutcome u (abandonUpdate plan hold) := by
  unfold abandonUpdate
  refine keeps_tag ⟨_, _, hplan.knows, Or.inl ⟨htagged, rfl, Or.inr rfl⟩⟩ fun restore step => ?_
  trivial

/-- From the pull on a run keeps to its plan. -/
theorem keeps_performUpdate {hasBreaker : Bool} {fuel : Nat} {plan : Plan}
    (hplan : Planned input plan u) (htagged : u.tagged = []) :
    (updateMonitor libs input).Meets anyOutcome u
      (performUpdate cfg hasBreaker input fuel plan) := by
  have hmay : MayIssue input u (.pull plan.compose input.service) :=
    ⟨htagged, _, _, hplan.knows, hplan.compose, rfl⟩
  have hpull : (updateMonitor libs input).Ignores True u
      (runStep "pull".toList (.pull plan.compose input.service)) :=
    (ignores_command hmay fun _ => rfl).bind fun _ => Monitor.ignores_pure _
  unfold performUpdate
  refine keeps_bind hpull fun pull => ?_
  refine Monitor.meets_ite.mpr ⟨fun _ => keeps_of_ignores ignores_finish, fun _ => ?_⟩
  have hresolve : (updateMonitor libs input).Ignores True u
      (runStep "resolve".toList (.imageId plan.fileRef)) :=
    (overlooks.look rfl).bind fun _ => Monitor.ignores_pure _
  refine keeps_bind hresolve fun resolved => ?_
  refine Monitor.meets_ite.mpr ⟨fun _ => keeps_of_ignores ignores_finish, fun _ => ?_⟩
  refine keeps_bind (overlooks.look rfl) fun info => ?_
  refine Monitor.meets_ite.mpr ⟨fun _ => ?_, fun _ => ?_⟩
  · exact keeps_bind (overlooks.look rfl) fun held => keeps_of_ignores ignores_finish
  · -- A hold that fails leaves no tag behind.
    refine keeps_tag ⟨_, _, hplan.knows, Or.inl ⟨htagged, rfl, Or.inl hplan.holdTag⟩⟩ ?_
    intro hold step
    dsimp only
    by_cases hhold : hold.exitCode = some 0
    · rw [if_pos hhold, if_neg (not_not.mpr hhold)]
      refine keeps_recreateUpdate ⟨hplan.knows, hplan.compose, hplan.holdTag⟩ ?_
      show u.tagged ++ _ = _
      rw [htagged]
      rfl
    · rw [if_neg hhold, if_pos hhold]
      exact keeps_abandonUpdate hplan htagged

/-! ### Before the pull -/

/-- A run that has planned goes by its plan. -/
def Plans (input : ComposeUpdateInput) : Progress → Outcome Str Plan → Prop
  | u, .returned plan => Planned input plan u ∧ u.tagged = []
  | _, .thrown _ | _, .unfinished => True

/-- A part that the run learns nothing from, and what it plans then. -/
theorem plans_bind {p : ComposeTool α} {f : α → ComposeTool Plan}
    (hp : (updateMonitor libs input).Ignores True u p)
    (hf : ∀ a, (updateMonitor libs input).Meets (Plans input) u (f a)) :
    (updateMonitor libs input).Meets (Plans input) u (p >>= f) :=
  hp.meets_bind hf (fun _ => trivial) fun _ => trivial

theorem plans_makePlan {target : ContainerIdentity} {fileRef : Str} {warnings : List Str} :
    (updateMonitor libs input).Meets (Plans input) ⟨some target, some fileRef, []⟩
      (makePlan target (composeOf input target) input.service fileRef warnings) := by
  refine Monitor.meets_ite.mpr ⟨fun _ => trivial, fun hid => ?_⟩
  refine plans_bind (overlooks.look rfl) fun res => plans_bind (Monitor.ignores_orThrow _) fun _ => ?_
  refine ⟨⟨⟨rfl, rfl, ?_⟩, rfl, rfl⟩, rfl⟩
  simpa using hid

/-- The file of the container tells the reference. -/
theorem plans_readModel {target : ContainerIdentity} {f : ComposeModel → ComposeTool Plan}
    (hf : ∀ model, (updateMonitor libs input).Meets (Plans input)
      ⟨some target, (resolveRef input model).toOption, []⟩ (f model)) :
    (updateMonitor libs input).Meets (Plans input) ⟨some target, none, []⟩
      (readModel libs (composeOf input target) >>= f) := by
  unfold readModel
  rw [Monitor.meets_bind, Monitor.meets_bind, meets_exec]
  refine ⟨⟨rfl, rfl, target, rfl, rfl⟩, fun res => ?_, fun e => trivial⟩
  refine Monitor.meets_ite.mpr ⟨fun _ => trivial, fun hexit => ?_⟩
  show (updateMonitor libs input).Meets _ (if res.exitCode = some 0 then _ else _) _
  rw [if_pos (not_not.mp hexit)]
  cases hmodel : parseCompose libs.parseYaml res.stdout with
  | error e => trivial
  | ok model =>
    show (updateMonitor libs input).Meets (Plans input)
      ⟨some target, (resolveRef input model).toOption, []⟩ (f model)
    exact hf model

theorem plans_planUpdate :
    (updateMonitor libs input).Meets (Plans input) .start (planUpdate libs cfg input) := by
  unfold planUpdate
  rw [Monitor.meets_bind, meets_exec]
  refine ⟨rfl, fun scan => ?_, fun e => trivial⟩
  refine Monitor.meets_ite.mpr ⟨fun _ => trivial, fun hexit => ?_⟩
  show (updateMonitor libs input).Meets _ (if scan.exitCode = some 0 then _ else _) _
  rw [if_pos (not_not.mp hexit)]
  dsimp only
  cases htarget : resolveTarget input (parseContainerIdentities scan.stdout) with
  | error e => trivial
  | ok target =>
    show (updateMonitor libs input).Meets (Plans input) ⟨some target, none, []⟩
      (orThrow (assertComposeProject target.composeProject) >>= _)
    refine plans_bind (Monitor.ignores_orThrow _) fun _ => ?_
    show (updateMonitor libs input).Meets (Plans input) ⟨some target, none, []⟩
      (readModel libs (composeOf input target) >>= _)
    refine plans_readModel fun model => ?_
    cases resolveRef input model with
    | error e => trivial
    | ok fileRef =>
      show (updateMonitor libs input).Meets (Plans input) ⟨some target, some fileRef, []⟩
        (checkWatchtower input _ target >>= _)
      refine plans_bind overlooks.checkWatchtower fun _ => plans_bind overlooks.checkProbe fun _ => ?_
      exact plans_makePlan

theorem ignores_peekGate {hasBreaker : Bool} :
    (updateMonitor libs input).Ignores True u (peekGate cfg hasBreaker input) := by
  unfold peekGate
  refine Monitor.ignores_ite ?_ (Monitor.ignores_pure _)
  refine Monitor.Ignores.bind (Monitor.ignores_ask trivial fun _ => rfl) fun verdict => ?_
  exact Monitor.ignores_ite (ignores_append.bind fun _ => Monitor.ignores_throw _)
    (Monitor.ignores_pure _)

/-- A run asks of the daemon what it may ask. -/
theorem keeps_composeUpdateHandler (libs : Libraries) (cfg : ComposeConfig) (hasBreaker : Bool)
    (input : ComposeUpdateInput) (fuel : Nat) :
    (updateMonitor libs input).Meets anyOutcome .start
      (composeUpdateHandler libs cfg hasBreaker input fuel) := by
  refine Monitor.meets_bind.mpr (Monitor.Meets.mono
    (?_ : (updateMonitor libs input).Meets (Plans input) .start _) ?_)
  · exact plans_bind (Monitor.ignores_orThrow _) fun _ => plans_bind ignores_peekGate fun _ =>
      plans_planUpdate
  · intro u o hplans
    cases o with
    | returned plan => exact keeps_performUpdate hplans.1 hplans.2
    | thrown | unfinished => trivial

end

end HomelabMcp.Docker
