import HomelabMcp.Tools.Temps
import HomelabMcp.Tools.World

/-!
# Where a write to a container lands (dockerFiles.ts)

A file of a Docker container is written in several commands, and one of them puts the content
in its place. Each can fail, and those after that one as well, so an error does not tell
whether the file has changed.

- `writeDockerFile_lands`: where the write returns, the file holds the content; where it throws,
  the file is as it was or holds a part of the content, or all of it.
- `writeDockerFile_simulated`: the world of the file tools has an answer for each such run.
-/

namespace HomelabMcp.Tools

open SlashPath Text Integrity Program Backup Guardrails Iso

/-! ## The files on the way -/

/-- The commands that change no file of a guest. -/
inductive SparesGuest (vmid : Nat) : Str → Prop
  | mkTemp (tempDir : Str) : SparesGuest vmid (buildMkTempCommand tempDir)
  | rm (path : Str) : SparesGuest vmid (buildRmCommand path)
  | stat (path : Str) : SparesGuest vmid (buildStatCommand vmid path)

/-- The commands that change the content of no file of a container. -/
inductive SparesContainer (vmid : Nat) (container : Str) : Str → Prop
  | guest {command : Str} : SparesGuest vmid command → SparesContainer vmid container command
  | mkTemp (tempDir : Str) : SparesContainer vmid container
      (buildPctExecCommand vmid (buildMkTempCommand tempDir) {})
  | rm (path : Str) : SparesContainer vmid container
      (buildPctExecCommand vmid (buildRmCommand path) {})
  | chown {perms : GuestPerms} {path line : Str} :
      (buildDockerChownCommand container perms path : Except Str Str) = .ok line →
      SparesContainer vmid container (buildPctExecCommand vmid line {})
  | chmod {perms : GuestPerms} {path line : Str} :
      (buildDockerChmodCommand container perms path : Except Str Str) = .ok line →
      SparesContainer vmid container (buildPctExecCommand vmid line {})

/-- What a copy makes of the file that it goes to: with exit code 0 that is what was copied,
and else it is as it was, or holds a part. -/
structure Copied (answer : Except Str ExecResult) (source before after : Option Bytes) : Prop where
  whole : ∀ res, answer = .ok res → res.exitCode = some 0 → source.isSome → after = source
  part : after = before ∨ ∃ n, ∃ content, source = some content ∧ after = some (content.take n)

/-- The files of the node, of a guest and of a container of it, as commands find and leave
them. -/
structure Passage (ω : Type) (vmid : Nat) (container : Str) where
  answer : ω → (c : ToolCall TransferCall) → ToolAnswer TransferResult c × ω
  node : ω → Str → Option Bytes
  guest : ω → Str → Option Bytes
  inside : ω → Str → Option Bytes
  writes : ∀ w path content, (answer w (.op (.writeFile path content))).1 = .ok () →
    node (answer w (.op (.writeFile path content))).2 path = some content
  writes_guest : ∀ w path content, guest (answer w (.op (.writeFile path content))).2 = guest w
  writes_inside : ∀ w path content, inside (answer w (.op (.writeFile path content))).2 = inside w
  spares_guest : ∀ w command, SparesGuest vmid command →
    guest (answer w (.op (.exec command))).2 = guest w
  spares_inside : ∀ w command, SparesContainer vmid container command →
    inside (answer w (.op (.exec command))).2 = inside w
  pushes : ∀ w tmp path perms, Copied
    (answer w (.op (.exec (buildPctPushCommand vmid tmp path perms)))).1 (node w tmp)
    (guest w path) (guest (answer w (.op (.exec (buildPctPushCommand vmid tmp path perms)))).2 path)
  pushes_inside : ∀ w tmp path perms,
    inside (answer w (.op (.exec (buildPctPushCommand vmid tmp path perms)))).2 = inside w
  copies : ∀ w tmp path line,
    (buildDockerCpToContainer tmp container path : Except Str Str) = .ok line → Copied
      (answer w (.op (.exec (buildPctExecCommand vmid line {})))).1 (guest w tmp)
      (inside w path) (inside (answer w (.op (.exec (buildPctExecCommand vmid line {})))).2 path)

/-- What has become of a file that was to hold some content. -/
def Landed {α : Type} (content : Bytes) (before after : Option Bytes) : Outcome Str α → Prop
  | .returned _ => after = some content
  | .thrown _ => after = before ∨ ∃ n, after = some (content.take n)
  | .unfinished => False

section
variable {answer : Except Str ExecResult} {source before after : Option Bytes} {content : Bytes}

theorem Copied.landed (h : Copied answer source before after) (hsource : source = some content)
    {res : ExecResult} (hres : answer = .ok res) (hexit : res.exitCode = some 0) :
    after = some content :=
  (h.whole res hres hexit (hsource ▸ rfl)).trans hsource

theorem Copied.landed_thrown (h : Copied answer source before after)
    (hsource : source = some content) :
    after = before ∨ ∃ n, after = some (content.take n) := by
  refine h.part.imp_right ?_
  rintro ⟨n, copied, hcopied, hafter⟩
  obtain rfl := Option.some.inj (hsource.symm.trans hcopied)
  exact ⟨n, hafter⟩

end

namespace Passage

variable {ω : Type} {vmid : Nat} {container : Str} (P : Passage ω vmid container) {w : ω}
  {α β : Type}

/-- The file that is written, where a bind mount shows it in the guest or else in the
container. -/
def shown (mounts : List Docker.DockerMount) (path : Str) (w : ω) : Option Bytes :=
  match Docker.resolveBindMount mounts path with
  | some bind => P.guest w bind.lxcPath
  | none => P.inside w path

/-! ## Programs that leave files alone -/

section
variable {γ : Type} (view : ω → γ)

/-- However it ends, the program leaves what is seen of the world as it was. -/
def Leaves (w : ω) (p : Tool TransferResult α) : Prop :=
  Leads P.answer (fun w' o => view w' = view w ∧ o ≠ .unfinished) w p

variable {P} {view}

theorem Leaves.leads_bind {p : Tool TransferResult α} {f : α → Tool TransferResult β}
    {post : ω → Outcome Str β → Prop} (hp : P.Leaves view w p)
    (hf : ∀ w' a, view w' = view w → Leads P.answer post w' (f a))
    (hthrown : ∀ w' e, view w' = view w → post w' (.thrown e)) :
    Leads P.answer post w (p >>= f) := by
  refine Program.leads_bind.mpr (hp.mono fun w' o h => ?_)
  obtain ⟨hview, hended⟩ := h
  cases o with
  | returned a => exact hf w' a hview
  | thrown e => exact hthrown w' e hview
  | unfinished => exact absurd rfl hended

theorem leaves_pure (a : α) : P.Leaves view w (pure a) :=
  ⟨rfl, nofun⟩

theorem leaves_throw (e : Str) : P.Leaves view w (throw e : Tool TransferResult α) :=
  ⟨rfl, nofun⟩

theorem leaves_ite {c : Prop} [Decidable c] {p q : Tool TransferResult α}
    (hp : P.Leaves view w p) (hq : P.Leaves view w q) :
    P.Leaves view w (if c then p else q) := by
  split
  · exact hp
  · exact hq

theorem Leaves.bind {p : Tool TransferResult α} {f : α → Tool TransferResult β}
    (hp : P.Leaves view w p) (hf : ∀ w' a, P.Leaves view w' (f a)) :
    P.Leaves view w (p >>= f) :=
  hp.leads_bind (fun w' a h => (hf w' a).mono fun _ _ h' => ⟨h'.1.trans h, h'.2⟩)
    fun _ _ h => ⟨h, nofun⟩

end

/-! ## Calls -/

section
variable {P}

theorem leads_perform {c : TransferCall} {post : ω → Outcome Str (TransferResult c) → Prop} :
    Leads P.answer post w (perform c : Tool TransferResult (TransferResult c)) ↔
      (∀ res, (P.answer w (.op c)).1 = .ok res → post (P.answer w (.op c)).2 (.returned res)) ∧
        ∀ e, (P.answer w (.op c)).1 = .error e → post (P.answer w (.op c)).2 (.thrown e) := by
  show Leads P.answer post (P.answer w (.op c)).2 (orThrow (P.answer w (.op c)).1) ↔ _
  cases hanswer : (P.answer w (.op c)).1 with
  | ok res => exact ⟨fun h => ⟨fun _ hres => Except.ok.inj hres ▸ h, nofun⟩, fun h => h.1 res rfl⟩
  | error e => exact ⟨fun h => ⟨nofun, fun _ he => Except.error.inj he ▸ h⟩, fun h => h.2 e rfl⟩

theorem leads_exec {command : Str} {post : ω → Outcome Str ExecResult → Prop} :
    Leads P.answer post w (transferTransport.exec command) ↔
      (∀ res, (P.answer w (.op (.exec command))).1 = .ok res →
        post (P.answer w (.op (.exec command))).2 (.returned res)) ∧
      ∀ e, (P.answer w (.op (.exec command))).1 = .error e →
        post (P.answer w (.op (.exec command))).2 (.thrown e) :=
  leads_perform (c := .exec command)

theorem leaves_exec {γ : Type} {view : ω → γ} {command : Str}
    (h : view (P.answer w (.op (.exec command))).2 = view w) :
    P.Leaves view w (transferTransport.exec command) :=
  leads_exec.mpr ⟨fun _ _ => ⟨h, nofun⟩, fun _ _ => ⟨h, nofun⟩⟩

/-- Each builder of a `docker` line throws for a name that is none. -/
theorem leads_dockerCommand {command : Str} {f : Str → Tool TransferResult α}
    {post : ω → Outcome Str α → Prop}
    (hline : (dockerCommand container command : Except Str Str) = .ok command →
      Leads P.answer post w (f command))
    (hthrown : ∀ e, post w (.thrown e)) :
    Leads P.answer post w (dockerCommand container command >>= f) := by
  unfold dockerCommand at hline ⊢
  split
  · next hname => exact hline (if_pos hname)
  · exact hthrown _

/-- A cleanup that cannot throw. -/
theorem leads_cleanup {γ : Type} {view : ω → γ} {command : Str}
    (h : view (P.answer w (.op (.exec command))).2 = view w) :
    Leads P.answer (fun w' o => view w' = view w ∧ o = .returned ()) w (tryCatch (do
      let _ ← transferTransport.exec command
      pure ()) fun _ => pure ()) :=
  leads_tryCatch.mpr (Program.leads_bind.mpr
    (leads_exec.mpr ⟨fun _ _ => ⟨h, rfl⟩, fun _ _ => ⟨h, rfl⟩⟩))

/-- What holds after the body holds after the cleanup. -/
theorem leads_tryFinally {γ : Type} (view : ω → γ) (post : γ → Outcome Str α → Prop)
    {body : Tool TransferResult α} {cleanup : Tool TransferResult Unit}
    (hbody : Leads P.answer (fun w' o => post (view w') o) w body)
    (hended : ∀ v, ¬post v .unfinished)
    (hcleanup : ∀ w', Leads P.answer (fun w'' o => view w'' = view w' ∧ o = .returned ()) w'
      cleanup) :
    Leads P.answer (fun w' o => post (view w') o) w (tryFinally body cleanup) := by
  -- The cleanup does not throw, so what the body came to is passed on.
  have hrest (w' : ω) (outcome : Except Str α) (o : Outcome Str α) (hpost : post (view w') o)
      (ho : ∀ w'', Leads P.answer (fun _ o' => o' = o) w'' (orThrow outcome)) :
      Leads P.answer (fun w' o => post (view w') o) w' (cleanup >>= fun _ => orThrow outcome) := by
    refine Program.leads_bind.mpr ((hcleanup w').mono fun w'' o' h => ?_)
    obtain ⟨hview, rfl⟩ := h
    cases outcome with
    | ok a =>
      obtain rfl : Outcome.returned a = o := ho w''
      show post (view w'') _
      rw [hview]
      exact hpost
    | error e =>
      obtain rfl : Outcome.thrown e = o := ho w''
      show post (view w'') _
      rw [hview]
      exact hpost
  refine Program.leads_bind.mpr (leads_tryCatch.mpr (Program.leads_bind.mpr
    (hbody.mono fun w' o h => ?_)))
  cases o with
  | returned a => exact hrest w' (.ok a) _ h fun _ => rfl
  | thrown e => exact hrest w' (.error e) _ h fun _ => rfl
  | unfinished => exact absurd h (hended _)

end

/-! ## Into the guest -/

/-- The files that are not the node's. -/
def beyond (w : ω) : (Str → Option Bytes) × (Str → Option Bytes) :=
  (P.guest w, P.inside w)

section
variable {P}

theorem leaves_node {command : Str} (h : SparesGuest vmid command) :
    P.beyond (P.answer w (.op (.exec command))).2 = P.beyond w :=
  Prod.ext (P.spares_guest w command h) (P.spares_inside w command (.guest h))

theorem leaves_createNodeTemp (tempDir : Str) :
    P.Leaves P.beyond w (createNodeTemp transferTransport tempDir) :=
  (leaves_exec (leaves_node (.mkTemp tempDir))).bind fun _ _ =>
    leaves_ite (leaves_throw _) (leaves_ite (leaves_throw _) (leaves_pure _))

theorem leaves_statContainerPerms (path : Str) :
    P.Leaves P.beyond w (statContainerPerms transferTransport vmid path) :=
  (leaves_exec (leaves_node (.stat path))).bind fun _ _ => leaves_pure _

theorem pushFromTemp_lands (path : Str) (content : Bytes) (perms : GuestPerms) (tmp : Str) :
    Leads P.answer (fun w' o => P.inside w' = P.inside w ∧
        Landed content (P.guest w path) (P.guest w' path) o) w
      (pushFromTemp transferTransport vmid path content perms tmp) := by
  have hinside := P.writes_inside w tmp content
  have hguest := congrFun (P.writes_guest w tmp content) path
  refine Program.leads_bind.mpr ((leads_perform (c := .writeFile tmp content)).mpr
    ⟨fun _ hok => ?_, fun e _ => ⟨hinside, Or.inl hguest⟩⟩)
  -- From here on the file of the node is whole, and what is pushed is the content.
  have hnode := P.writes w tmp content hok
  generalize (P.answer w (.op (.writeFile tmp content))).2 = w₁ at hinside hguest hnode
  have hcopied := P.pushes w₁ tmp path perms
  have hpushed := (P.pushes_inside w₁ tmp path perms).trans hinside
  rw [hguest] at hcopied
  show Leads P.answer _ w₁ (transferTransport.exec _ >>= _)
  refine Program.leads_bind.mpr (leads_exec.mpr ⟨fun res hres => ?_, fun e _ => ?_⟩)
  · show Leads P.answer _ _ (if res.exitCode ≠ some 0 then throw _ else pure ())
    split
    · exact ⟨hpushed, hcopied.landed_thrown hnode⟩
    · next hexit => exact ⟨hpushed, hcopied.landed hnode hres (not_not.mp hexit)⟩
  · exact ⟨hpushed, hcopied.landed_thrown hnode⟩

theorem pushContainerFile_lands (path : Str) (content : Bytes) (perms : GuestPerms)
    (tempDir : Str) :
    Leads P.answer (fun w' o => P.inside w' = P.inside w ∧
        Landed content (P.guest w path) (P.guest w' path) o) w
      (pushContainerFile transferTransport vmid path content perms tempDir) := by
  refine (leaves_createNodeTemp tempDir).leads_bind (fun w₁ tmp hview => ?_) fun w₁ e hview => ?_
  · obtain ⟨hguest, hinside⟩ := Prod.ext_iff.mp hview
    have hpushed := pushFromTemp_lands (P := P) (w := w₁) path content perms tmp
    rw [show P.guest w₁ = P.guest w from hguest, show P.inside w₁ = P.inside w from hinside]
      at hpushed
    exact leads_tryFinally P.beyond
      (fun v o => v.2 = P.inside w ∧ Landed content (P.guest w path) (v.1 path) o)
      hpushed (fun v h => h.2) fun w' => leads_cleanup (leaves_node (.rm tmp))
  · obtain ⟨hguest, hinside⟩ := Prod.ext_iff.mp hview
    exact ⟨hinside, Or.inl (congrFun hguest path)⟩

end

/-! ## Into a container -/

section
variable {P}

theorem leaves_lxcExec {inner : Str}
    (h : SparesContainer vmid container (buildPctExecCommand vmid inner {})) :
    P.Leaves P.inside w (lxcExec transferTransport vmid inner) :=
  leaves_exec (P.spares_inside w _ h)

theorem leaves_makeLxcTemp (tempDir : Str) :
    P.Leaves P.inside w (makeLxcTemp transferTransport vmid tempDir) :=
  (leaves_lxcExec (.mkTemp tempDir)).bind fun _ _ =>
    leaves_ite (leaves_throw _) (leaves_ite (leaves_throw _) (leaves_pure _))

theorem leaves_restorePerms (path : Str) (perms : Option GuestPerms) :
    P.Leaves P.inside w (restorePerms transferTransport vmid container path perms) := by
  have hnothing {w' : ω} (e : Str) :
      P.inside w' = P.inside w' ∧ (Outcome.thrown e : Outcome Str (Option Str)) ≠ .unfinished :=
    ⟨rfl, nofun⟩
  cases perms with
  | none => exact leaves_pure _
  | some perms =>
    refine leads_dockerCommand (fun hchown => ?_) hnothing
    refine (leaves_lxcExec (.chown hchown)).bind fun w' _ => ?_
    refine leads_dockerCommand (fun hchmod => ?_) hnothing
    exact (leaves_lxcExec (.chmod hchmod)).bind fun _ _ =>
      leaves_ite (leaves_pure _) (leaves_pure _)

theorem copyIn_lands (path : Str) (content : Bytes) (prevPerms : Option GuestPerms)
    (tempDir lxcTmp : Str) :
    Leads P.answer (fun w' o => Landed content (P.inside w path) (P.inside w' path) o) w
      (copyIn transferTransport vmid container path content prevPerms tempDir lxcTmp) := by
  refine Program.leads_bind.mpr
    ((pushContainerFile_lands lxcTmp content _ tempDir).mono fun w₁ o h => ?_)
  obtain ⟨hinside, hlanded⟩ := h
  cases o with
  | unfinished => exact hlanded.elim
  | thrown e => exact Or.inl (congrFun hinside path)
  | returned _ =>
    refine leads_dockerCommand (fun hline => ?_) fun e => Or.inl (congrFun hinside path)
    have hcopied := P.copies w₁ lxcTmp path _ hline
    rw [hinside] at hcopied
    refine Program.leads_bind.mpr (leads_exec.mpr ⟨fun res hres => ?_, fun e _ => ?_⟩)
    · show Leads P.answer _ _ (if res.exitCode ≠ some 0 then throw _ else _)
      split
      · exact hcopied.landed_thrown hlanded
      · next hexit =>
        have hwhole := hcopied.landed hlanded hres (not_not.mp hexit)
        -- The content is there by now, also when its owner and mode cannot be had back.
        refine (leaves_restorePerms path prevPerms).leads_bind (fun w₂ note hview => ?_)
          fun w₂ e hview => Or.inr ⟨content.length, ?_⟩
        · exact (congrFun hview path).trans hwhole
        · rw [List.take_length, hview, hwhole]
    · exact hcopied.landed_thrown hlanded

/-- Where the write returns, the file holds the content; where it throws, the file is as it
was, or holds what the failed copy has left, or all of it. -/
theorem writeDockerFile_lands (path : Str) (content : Bytes) (mounts : List Docker.DockerMount)
    (prevPerms : Option GuestPerms) (newFileDefaults : GuestPerms) (tempDir : Str) :
    Leads P.answer (fun w' o => Landed content (P.shown mounts path w) (P.shown mounts path w') o)
      w (writeDockerFile transferTransport vmid container path content mounts prevPerms
        newFileDefaults tempDir) := by
  unfold writeDockerFile shown
  cases Docker.resolveBindMount mounts path with
  | some bind =>
    dsimp only
    refine (leaves_statContainerPerms bind.lxcPath).leads_bind (fun w₁ perms hview => ?_)
      fun w₁ e hview => Or.inl (congrFun (Prod.ext_iff.mp hview).1 bind.lxcPath)
    have hguest : P.guest w₁ = P.guest w := (Prod.ext_iff.mp hview).1
    refine Program.leads_bind.mpr
      ((pushContainerFile_lands bind.lxcPath content _ tempDir).mono fun w₂ o h => ?_)
    rw [hguest] at h
    cases o with
    | returned _ => exact h.2
    | thrown e => exact h.2
    | unfinished => exact h.2
  | none =>
    dsimp only
    refine (leaves_makeLxcTemp tempDir).leads_bind (fun w₁ lxcTmp hview => ?_)
      fun w₁ e hview => Or.inl (congrFun hview path)
    have hcopied := copyIn_lands (P := P) (w := w₁) path content prevPerms tempDir lxcTmp
    rw [hview] at hcopied
    exact leads_tryFinally P.inside (fun v o => Landed content (P.inside w path) (v path) o)
      hcopied (fun _ h => h) fun w' => leads_cleanup (P.spares_inside w' _ (.rm lxcTmp))

end

end Passage

/-- A node on which every file holds the content already, so that every copy goes well. -/
def Passage.settled (vmid : Nat) (container : Str) (content : Bytes) :
    Passage Unit vmid container where
  answer _
    | .op (.exec _) => (.ok ⟨"/tmp/file".toList, [], some 0⟩, ())
    | .op (.readFile _) => (.ok content, ())
    | .op (.writeFile _ written) => (if written = content then .ok () else .error failure, ())
    | .append _ => ((), ())
    | .check _ | .peek _ => (⟨false, 0, 0, 0⟩, ())
    | .clock => (0, ())
  node _ _ := some content
  guest _ _ := some content
  inside _ _ := some content
  writes _ _ written h := by
    have hok : (if written = content then .ok () else .error failure : Except Str Unit) = .ok () :=
      h
    split at hok
    · next hwritten => exact congrArg some hwritten.symm
    · cases hok
  writes_guest _ _ _ := rfl
  writes_inside _ _ _ := rfl
  spares_guest _ _ _ := rfl
  spares_inside _ _ _ := rfl
  pushes _ _ _ _ := ⟨fun _ _ _ _ => rfl, Or.inl rfl⟩
  pushes_inside _ _ _ _ := rfl
  copies _ _ _ _ _ := ⟨fun _ _ _ _ => rfl, Or.inl rfl⟩

example : (play (Passage.settled 101 "web".toList [1]).answer ()
    (writeDockerFile transferTransport 101 "web".toList "/app/motd".toList [1] []
      (some ⟨"644".toList, 0, 0⟩) ⟨"644".toList, 0, 0⟩ "/tmp".toList)).1 =
    .returned ⟨false, none, none⟩ := rfl

/-! ## In the world of the file tools -/

/-- However such a write lands, the world of the file tools can answer so. -/
theorem answerWrite_of_landed {α : Type} (rt : Runtime) (cfg : BackupConfig)
    (verdict : BreakerVerdict) (now : Instant) (w : World) {vmid : Nat} {container path : Str}
    {content : Bytes} (inspect : DockerInspect) (prevPerms : Option GuestPerms)
    (newFile : GuestPerms) {after : Option Bytes} {o : Outcome Str α}
    (h : Landed content (w.files ⟨.docker, some vmid, some container, path⟩) after o) :
    ∃ trouble : Trouble WriteCall, trouble.verdict = verdict ∧
      (answerWrite rt cfg trouble now w
        (.op (.writeDockerFile vmid container path content inspect prevPerms newFile))).2.files =
        Function.update w.files ⟨.docker, some vmid, some container, path⟩ after ∧
      ((∃ a, o = .returned a) ↔ ∃ res, (answerWrite rt cfg trouble now w
        (.op (.writeDockerFile vmid container path content inspect prevPerms newFile))).1 =
          .ok res) := by
  cases o with
  | unfinished => exact h.elim
  | returned a =>
    obtain rfl : after = some content := h
    exact ⟨.calm verdict, rfl, rfl, fun _ => ⟨_, rfl⟩, fun _ => ⟨a, rfl⟩⟩
  | thrown e =>
    rcases h with rfl | ⟨n, rfl⟩
    · refine ⟨⟨fun _ => true, fun _ => none, verdict⟩, rfl, ?_, nofun, nofun⟩
      exact (Function.update_eq_self _ _).symm
    · exact ⟨⟨fun _ => true, fun _ => some n, verdict⟩, rfl, rfl, nofun, nofun⟩

/-- For each run of the write there is an answer of that world which leaves the file as the run
does, and throws when the run does. -/
theorem writeDockerFile_simulated {ω : Type} {vmid : Nat} {container : Str}
    (P : Passage ω vmid container) (w : ω) {world : World} {path : Str} {content : Bytes}
    {mounts : List Docker.DockerMount} {prevPerms : Option GuestPerms}
    {newFileDefaults : GuestPerms} {tempDir : Str}
    (hsame : world.files ⟨.docker, some vmid, some container, path⟩ = P.shown mounts path w)
    {o : Outcome Str DockerWriteResult} {w' : ω}
    (hrun : play P.answer w (writeDockerFile transferTransport vmid container path content mounts
      prevPerms newFileDefaults tempDir) = (o, w'))
    (rt : Runtime) (cfg : BackupConfig) (verdict : BreakerVerdict) (now : Instant)
    (inspect : DockerInspect) :
    ∃ trouble : Trouble WriteCall, trouble.verdict = verdict ∧
      (answerWrite rt cfg trouble now world
        (.op (.writeDockerFile vmid container path content inspect prevPerms
          newFileDefaults))).2.files =
        Function.update world.files ⟨.docker, some vmid, some container, path⟩
          (P.shown mounts path w') ∧
      ((∃ a, o = .returned a) ↔ ∃ res, (answerWrite rt cfg trouble now world
        (.op (.writeDockerFile vmid container path content inspect prevPerms
          newFileDefaults))).1 = .ok res) := by
  have hlanded := leads_iff.mp (P.writeDockerFile_lands (w := w) path content mounts prevPerms
    newFileDefaults tempDir)
  rw [hrun, ← hsame] at hlanded
  exact answerWrite_of_landed rt cfg verdict now world inspect prevPerms newFileDefaults hlanded

end HomelabMcp.Tools
