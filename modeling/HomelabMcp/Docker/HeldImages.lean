import HomelabMcp.Docker.UpdateCommands
import HomelabMcp.Lib.Interleaving

/-!
# Updates side by side

Runs of `compose_update` in one container share the tags of its Docker daemon. Each
holds the image that its own service runs, and takes it back from there.

- `rollback_restores`: where the names that the runs use do not collide, a rollback takes
  back the image that the container ran when the runs began.
-/

namespace HomelabMcp.Docker

open SlashPath Text Integrity Audit Guardrails Program Tools

/-! ## The daemon -/

structure Daemon where
  containers : List ContainerIdentity
  /-- The image that a full name is the tag of. -/
  tags : Str → Option Str

/-- A name becomes the tag of an image. -/
def Daemon.setTag (d : Daemon) (name id : Str) : Daemon :=
  { d with tags := Function.update d.tags name (some id) }

/-- What stays as it is while the runs go on. -/
structure Site where
  libs : Libraries
  /-- The full name of a reference: registry, repository and tag. -/
  canonical : Str → Str
  /-- The image that the files of a project name for a service. -/
  image : ComposeProject → Str → Str

variable {site : Site}

/-- The image of a reference. -/
def Site.resolve (site : Site) (d : Daemon) (ref : Str) : Option Str :=
  if isDigest ref then some ref else d.tags (site.canonical ref)

def succeeded : Except Str ExecResult → Bool
  | .ok res => decide (res.exitCode = some 0)
  | .error _ => false

/-- What the daemon may answer a command, and where it then is. A command that throws or
fails may have changed what it changes when it succeeds. -/
def Site.Answers (site : Site) (d : Daemon) (answer : Except Str ExecResult) (d' : Daemon) :
    DockerCommand → Prop
  | .identities => d' = d ∧ ∀ res, answer = .ok res → res.exitCode = some 0 →
      parseContainerIdentities res.stdout = d.containers
  | .composeConfig p => d' = d ∧ ∀ res, answer = .ok res → res.exitCode = some 0 →
      ∀ model, parseCompose site.libs.parseYaml res.stdout = .ok model →
        ∀ svc ∈ model, ∀ ref, svc.image = some ref → ref = site.image p svc.name
  | .pull p service => d'.containers = d.containers ∧
      ∀ name, name ≠ site.canonical (site.image p service) → d'.tags name = d.tags name
  -- An image id is no name for a tag.
  | .tag source target => (d' = d ∧ succeeded answer = false) ∨
      ∃ id, site.resolve d source = some id ∧ isDigest target = false ∧
        d' = d.setTag (site.canonical target) id
  -- What a recreate leaves came from the file it was given.
  | .up p pullNever service =>
    (∀ c ∈ d'.containers, c ∈ d.containers ∨ c.composeService = service ∧
      ∀ path, configFilesInclude c.composeConfigFiles path = true → path = p.path) ∧
    ∀ name, pullNever = true ∨ name ≠ site.canonical (site.image p service) →
      d'.tags name = d.tags name
  | .envArgs _ | .probe _ _ | .imageInfo _ | .imageId _ | .healthSample _ => d' = d

variable {ι : Type}

/-- All runs talk to one daemon; the log, the breaker and the clock are beside it. -/
def Site.answers (site : Site) : Answering ι DockerCall DockerAnswer Daemon
  | d, _, .op cmd, answer, d' => site.Answers d answer d' cmd
  | d, _, _, _, d' => d' = d

/-! ## Names that do not collide -/

/-- The reference of a service whose container is `c`. -/
def Site.refOf (site : Site) (input : ComposeUpdateInput) (c : ContainerIdentity) : Str :=
  site.image (composeOf input c) input.service

/-- The tag under which the image of `c` is held. -/
def Site.holdOf (site : Site) (input : ComposeUpdateInput) (c : ContainerIdentity) : Str :=
  planHold c (site.refOf input c) input.service

/-- The names that runs use, about containers that are there when they begin. -/
structure Site.Distinct (site : Site) (input : ι → ComposeUpdateInput)
    (containers : List ContainerIdentity) : Prop where
  /-- No hold is a reference. -/
  hold_ref : ∀ i, ∀ c ∈ candidates (input i) containers,
    ∀ j, ∀ d ∈ candidates (input j) containers,
      site.canonical (site.holdOf (input i) c) ≠ site.canonical (site.refOf (input j) d)
  /-- Two runs are about two references. -/
  refs : ∀ i, ∀ c ∈ candidates (input i) containers,
    ∀ j, i ≠ j → ∀ d ∈ candidates (input j) containers,
      site.canonical (site.refOf (input i) c) ≠ site.canonical (site.refOf (input j) d)
  /-- They share a hold only if they hold the same image. -/
  holds : ∀ i, ∀ c ∈ candidates (input i) containers,
    ∀ j, i ≠ j → ∀ d ∈ candidates (input j) containers,
      site.canonical (site.holdOf (input i) c) = site.canonical (site.holdOf (input j) d) →
        c.imageId = d.imageId

/-! ## What the runs keep -/

/-- Where a run stands, when `containers` were there at the start. -/
structure Site.Keeps (site : Site) (input : ComposeUpdateInput)
    (containers : List ContainerIdentity) (d : Daemon) (u : Progress) : Prop where
  /-- A scan finds what was there. -/
  scan : u.target = none → ∀ c ∈ candidates input d.containers, c ∈ candidates input containers
  found : ∀ c, u.target = some c → c ∈ candidates input containers
  fileRef : ∀ c ref, u.target = some c → u.fileRef = some ref → ref = site.refOf input c
  held : ∀ c, u.target = some c → (c.imageId, site.holdOf input c) ∈ u.tagged →
    d.tags (site.canonical (site.holdOf input c)) = some c.imageId
  retagged : ∀ c, u.target = some c → (site.holdOf input c, site.refOf input c) ∈ u.tagged →
    isDigest (site.refOf input c) = false ∧
      d.tags (site.canonical (site.refOf input c)) = some c.imageId

/-- A hold is no image id. -/
theorem isDigest_holdTagFor (ref service : Str) : isDigest (holdTagFor ref service) = false := by
  have hdrop : (holdTagFor ref service).drop 7 =
      ((parseImageRef ref).repo ++ ":mcp-hold".toList).drop 7 ++ '-' :: service := by
    have hassoc : holdTagFor ref service =
        ((parseImageRef ref).repo ++ ":mcp-hold".toList) ++ '-' :: service := by
      simp [holdTagFor]
    rw [hassoc, List.drop_append_of_le_length]
    rw [List.length_append]
    exact Nat.le_add_left_of_le (by decide)
  unfold isDigest
  rw [hdrop, List.all_append, List.all_cons]
  simp

section
variable {input : ComposeUpdateInput} {containers : List ContainerIdentity} {d d' : Daemon}
  {u : Progress}

theorem isDigest_holdOf (c : ContainerIdentity) : isDigest (site.holdOf input c) = false :=
  isDigest_holdTagFor _ _

/-- What a run has held and tagged back stays, when its tags stay or name its image again. -/
theorem Site.Keeps.frame (h : site.Keeps input containers d u)
    (hscan : u.target = none →
      ∀ c ∈ candidates input d'.containers, c ∈ candidates input containers)
    (hhold : ∀ c, u.target = some c →
      d'.tags (site.canonical (site.holdOf input c)) =
          d.tags (site.canonical (site.holdOf input c)) ∨
        d'.tags (site.canonical (site.holdOf input c)) = some c.imageId)
    (href : ∀ c, u.target = some c →
      (site.holdOf input c, site.refOf input c) ∈ u.tagged →
        d'.tags (site.canonical (site.refOf input c)) =
            d.tags (site.canonical (site.refOf input c)) ∨
          d'.tags (site.canonical (site.refOf input c)) = some c.imageId) :
    site.Keeps input containers d' u where
  scan := hscan
  found := h.found
  fileRef := h.fileRef
  held c hc hheld := (hhold c hc).elim (fun heq => heq.trans (h.held c hc hheld)) id
  retagged c hc hre := by
    obtain ⟨hdigest, htag⟩ := h.retagged c hc hre
    exact ⟨hdigest, (href c hc hre).elim (fun heq => heq.trans htag) id⟩

/-- A tag that went through. -/
theorem Site.Keeps.tag {source target : Str} (h : site.Keeps input containers d u)
    (hheld : ∀ c, u.target = some c → c.imageId = source → site.holdOf input c = target →
      d.tags (site.canonical target) = some c.imageId)
    (hretagged : ∀ c, u.target = some c → site.holdOf input c = source →
      site.refOf input c = target →
        isDigest target = false ∧ d.tags (site.canonical target) = some c.imageId) :
    site.Keeps input containers d { u with tagged := u.tagged ++ [(source, target)] } where
  scan := h.scan
  found := h.found
  fileRef := h.fileRef
  held c hc hmem := by
    rcases List.mem_append.mp hmem with hmem | hmem
    · exact h.held c hc hmem
    · obtain ⟨hsource, htarget⟩ := Prod.mk.inj (List.mem_singleton.mp hmem)
      rw [htarget]
      exact hheld c hc hsource htarget
  retagged c hc hmem := by
    rcases List.mem_append.mp hmem with hmem | hmem
    · exact h.retagged c hc hmem
    · obtain ⟨hsource, htarget⟩ := Prod.mk.inj (List.mem_singleton.mp hmem)
      rw [htarget]
      exact hretagged c hc hsource htarget

/-- A scan names one of the containers that were there. -/
theorem Site.Keeps.scanned {running : List ContainerIdentity}
    (h : site.Keeps input containers d .start) (hrunning : running = d.containers) :
    site.Keeps input containers d
      { Progress.start with target := (resolveTarget input running).toOption } where
  scan _ := h.scan rfl
  found c hc := by
    cases htarget : resolveTarget input running with
    | error e =>
      rw [htarget] at hc
      cases hc
    | ok target =>
      rw [htarget] at hc
      cases hc
      obtain ⟨hmem, hservice, hfiles, -⟩ := resolveTarget_spec htarget
      refine h.scan rfl c ?_
      rw [← hrunning]
      exact List.mem_filter.mpr
        ⟨List.mem_filter.mpr ⟨hmem, beq_iff_eq.mpr hservice⟩, hfiles⟩
  fileRef := nofun
  held := nofun
  retagged := nofun

/-- What the file names is what the daemon takes it for. -/
theorem Site.Keeps.read {c : ContainerIdentity} {text : Str}
    (h : site.Keeps input containers d u) (hc : u.target = some c)
    (hmodel : ∀ model, parseCompose site.libs.parseYaml text = .ok model →
      ∀ svc ∈ model, ∀ ref, svc.image = some ref → ref = site.image (composeOf input c) svc.name) :
    site.Keeps input containers d
      { u with fileRef :=
          (parseCompose site.libs.parseYaml text >>= resolveRef input).toOption } where
  scan := h.scan
  found := h.found
  fileRef c' ref hc' href := by
    obtain rfl := Option.some.inj (hc.symm.trans hc')
    cases hparse : parseCompose site.libs.parseYaml text with
    | error e =>
      rw [hparse] at href
      cases href
    | ok model =>
      rw [hparse] at href
      replace href : (resolveRef input model).toOption = some ref := href
      cases href' : resolveRef input model with
      | error e =>
        rw [href'] at href
        cases href
      | ok ref' =>
        rw [href'] at href
        cases href
        obtain ⟨svc, hsvc, hname, himage⟩ := resolveRef_spec href'
        rw [hmodel model hparse svc hsvc ref himage, hname]
        rfl
  held := h.held
  retagged := h.retagged

end

/-! ## One step of one run -/

section
variable {input : ι → ComposeUpdateInput} {containers : List ContainerIdentity} {d d' : Daemon}
  {t : ι → Progress} {i j : ι} {cmd : DockerCommand} {answer : Except Str ExecResult}

/-- The reference and the container of a run that knows both. -/
theorem Site.Keeps.knows {u : Progress} {c : ContainerIdentity} {ref : Str}
    (h : site.Keeps (input i) containers d u) (hknows : u.Knows c ref) :
    c ∈ candidates (input i) containers ∧ ref = site.refOf (input i) c :=
  ⟨h.found c hknows.1, h.fileRef c ref hknows.1 hknows.2.1⟩

/-- Whatever a run tags is the image that its container ran. -/
theorem Site.Keeps.source {u : Progress} (h : site.Keeps (input i) containers d u)
    {c : ContainerIdentity} {ref source target : Str} (hknows : u.Knows c ref)
    (htag : u.tagged = [] ∧ source = c.imageId ∧
          (target = planHold c ref (input i).service ∨ target = ref) ∨
        u.tagged = [(c.imageId, planHold c ref (input i).service)] ∧
          source = planHold c ref (input i).service ∧ target = ref) :
    site.resolve d source = some c.imageId := by
  obtain ⟨-, rfl⟩ := h.knows hknows
  unfold Site.resolve
  rcases htag with ⟨-, rfl, -⟩ | ⟨htagged, rfl, -⟩
  · rw [if_pos hknows.2.2]
  · have hdigest : isDigest (site.holdOf (input i) c) = false := isDigest_holdOf c
    show (if isDigest (site.holdOf (input i) c) then _ else _) = _
    rw [if_neg (Bool.eq_false_iff.mp hdigest)]
    refine h.held c hknows.1 ?_
    rw [htagged]
    exact List.mem_singleton_self _

/-- A name that one run gives an image, seen from another. -/
theorem Site.Distinct.tag_elsewhere (hdistinct : site.Distinct input containers) (hne : j ≠ i)
    {c e : ContainerIdentity} (hc : c ∈ candidates (input i) containers)
    (he : e ∈ candidates (input j) containers) {name : Str}
    (hname : name = site.holdOf (input i) c ∨ name = site.refOf (input i) c) :
    (site.canonical (site.holdOf (input j) e) = site.canonical name → e.imageId = c.imageId) ∧
      site.canonical (site.refOf (input j) e) ≠ site.canonical name := by
  rcases hname with rfl | rfl
  · exact ⟨hdistinct.holds j e he i hne c hc, (hdistinct.hold_ref i c hc j e he).symm⟩
  · exact ⟨fun heq => absurd heq (hdistinct.hold_ref j e he i c hc),
      hdistinct.refs j e he i hne c hc⟩

/-- What a recreate leaves is nothing that another run is about. -/
theorem Site.Keeps.scan_up (hdistinct : site.Distinct input containers) (hne : j ≠ i)
    (h : site.Keeps (input j) containers d (t j)) {c : ContainerIdentity}
    (hc : c ∈ candidates (input i) containers)
    (hup : ∀ e ∈ d'.containers, e ∈ d.containers ∨ e.composeService = (input i).service ∧
      ∀ path, configFilesInclude e.composeConfigFiles path = true → path = (input i).composePath)
    (hnone : (t j).target = none) :
    ∀ e ∈ candidates (input j) d'.containers, e ∈ candidates (input j) containers := by
  intro e he
  have hparts := he
  unfold candidates at hparts
  rw [List.mem_filter, List.mem_filter, beq_iff_eq] at hparts
  obtain ⟨⟨hmem, hservice⟩, hfiles⟩ := hparts
  rcases hup e hmem with hold | ⟨hservice', hpath⟩
  · refine h.scan hnone e ?_
    exact List.mem_filter.mpr ⟨List.mem_filter.mpr ⟨hold, beq_iff_eq.mpr hservice⟩, hfiles⟩
  · -- Then the two runs are about one service of one file.
    have hservices : (input j).service = (input i).service := hservice.symm.trans hservice'
    have hpaths := hpath _ hfiles
    have hcj : c ∈ candidates (input j) containers := by
      unfold candidates at hc ⊢
      rw [hservices, hpaths]
      exact hc
    refine absurd ?_ (hdistinct.refs j c hcj i hne c hc)
    unfold Site.refOf composeOf
    rw [hservices, hpaths]

/-- What one run does leaves the others what they hold. -/
theorem Site.Keeps.other (hdistinct : site.Distinct input containers) (hne : j ≠ i)
    (h : ∀ k, site.Keeps (input k) containers d (t k)) (hmay : MayIssue (input i) (t i) cmd)
    (hanswer : site.Answers d answer d' cmd) : site.Keeps (input j) containers d' (t j) := by
  cases cmd with
  | identities | composeConfig =>
    obtain ⟨rfl, -⟩ := hanswer
    exact h j
  | envArgs | probe | imageInfo | imageId | healthSample =>
    obtain rfl := hanswer
    exact h j
  | pull p service =>
    obtain ⟨-, c, ref, hknows, rfl, rfl⟩ := hmay
    obtain ⟨hc, -⟩ := (h i).knows hknows
    obtain ⟨hcontainers, htags⟩ := hanswer
    refine (h j).frame (fun hnone => hcontainers ▸ (h j).scan hnone) ?_ ?_
    · intro e he
      exact Or.inl (htags _ (hdistinct.hold_ref j e ((h j).found e he) i c hc))
    · intro e he _
      exact Or.inl (htags _ (hdistinct.refs j e ((h j).found e he) i hne c hc))
  | tag source target =>
    obtain ⟨c, ref, hknows, htag⟩ := hmay
    obtain ⟨hc, rfl⟩ := (h i).knows hknows
    rcases hanswer with ⟨rfl, -⟩ | ⟨id, hid, -, rfl⟩
    · exact h j
    · have hname : target = site.holdOf (input i) c ∨ target = site.refOf (input i) c := by
        rcases htag with ⟨-, -, htarget⟩ | ⟨-, -, htarget⟩
        · exact htarget
        · exact Or.inr htarget
      obtain rfl : id = c.imageId :=
        Option.some.inj (hid.symm.trans ((h i).source hknows htag))
      refine (h j).frame (h j).scan ?_ ?_
      · intro e he
        obtain ⟨hsame, -⟩ := hdistinct.tag_elsewhere hne hc ((h j).found e he) hname
        by_cases heq : site.canonical (site.holdOf (input j) e) = site.canonical target
        · refine Or.inr ?_
          show Function.update d.tags _ _ _ = _
          rw [heq, Function.update_self, hsame heq]
        · exact Or.inl (Function.update_of_ne heq _ _)
      · intro e he _
        obtain ⟨-, hother⟩ := hdistinct.tag_elsewhere hne hc ((h j).found e he) hname
        exact Or.inl (Function.update_of_ne hother _ _)
  | up p pullNever service =>
    obtain ⟨c, ref, hknows, rfl, rfl, -⟩ := hmay
    obtain ⟨hc, -⟩ := (h i).knows hknows
    obtain ⟨hcontainers, htags⟩ := hanswer
    refine (h j).frame ((h j).scan_up hdistinct hne hc hcontainers) ?_ ?_
    · intro e he
      exact Or.inl (htags _ (Or.inr (hdistinct.hold_ref j e ((h j).found e he) i c hc)))
    · intro e he _
      exact Or.inl (htags _ (Or.inr (hdistinct.refs j e ((h j).found e he) i hne c hc)))

/-- Where only the hold is tagged, nothing has been tagged back. -/
theorem Progress.Knows.not_retagged {u : Progress} {c : ContainerIdentity} {ref ref' : Str}
    (hknows : u.Knows c ref)
    (htagged : u.tagged = [] ∨ u.tagged = [(c.imageId, site.holdOf (input i) c)]) :
    (site.holdOf (input i) c, ref') ∉ u.tagged := by
  rcases htagged with htagged | htagged
  · rw [htagged]
    exact List.not_mem_nil
  · rw [htagged, List.mem_singleton]
    intro heq
    have hdigest : isDigest (site.holdOf (input i) c) = false := isDigest_holdOf c
    rw [(Prod.mk.inj heq).1, hknows.2.2] at hdigest
    cases hdigest

/-- A run that sets a tag: what it has set names the image of its container. -/
theorem Site.Keeps.own_tag {u : Progress} (h : site.Keeps (input i) containers d u)
    {c : ContainerIdentity} {ref source target : Str} (hknows : u.Knows c ref)
    (htag : u.tagged = [] ∧ source = c.imageId ∧
          (target = planHold c ref (input i).service ∨ target = ref) ∨
        u.tagged = [(c.imageId, planHold c ref (input i).service)] ∧
          source = planHold c ref (input i).service ∧ target = ref)
    (hanswer : site.Answers d answer d' (.tag source target)) :
    site.Keeps (input i) containers d'
      (learn site.libs (input i) u (.tag source target) answer) := by
  have hid := h.source hknows htag
  obtain ⟨-, rfl⟩ := h.knows hknows
  rcases hanswer with ⟨rfl, hfailed⟩ | ⟨id, hid', hdigest, rfl⟩
  · cases answer with
    | error e => exact h
    | ok res =>
      show site.Keeps _ _ _ (if res.exitCode = some 0 then _ else _)
      rw [if_neg (of_decide_eq_false hfailed)]
      exact h
  · obtain rfl : id = c.imageId :=
      Option.some.inj (hid'.symm.trans hid)
    have hkept : site.Keeps (input i) containers
        { d with tags := Function.update d.tags (site.canonical target) (some c.imageId) } u := by
      refine h.frame h.scan ?_ ?_
      · intro e he
        obtain rfl := Option.some.inj (hknows.1.symm.trans he)
        by_cases heq : site.canonical (site.holdOf (input i) c) = site.canonical target
        · refine Or.inr ?_
          show Function.update d.tags _ _ _ = _
          rw [heq, Function.update_self]
        · exact Or.inl (Function.update_of_ne heq _ _)
      · intro e he hmem
        obtain rfl := Option.some.inj (hknows.1.symm.trans he)
        exact absurd hmem (hknows.not_retagged (htag.imp (fun h => h.1) fun h => h.1))
    cases answer with
    | error e => exact hkept
    | ok res =>
      show site.Keeps _ _ _ (if res.exitCode = some 0 then _ else _)
      split
      · refine hkept.tag ?_ ?_
        · intro e he _ _
          obtain rfl := Option.some.inj (hknows.1.symm.trans he)
          exact Function.update_self _ _ _
        · intro e he _ _
          obtain rfl := Option.some.inj (hknows.1.symm.trans he)
          exact ⟨hdigest, Function.update_self _ _ _⟩
      · exact hkept

/-- A run keeps what it holds. -/
theorem Site.Keeps.own (hdistinct : site.Distinct input containers) {u : Progress}
    (h : site.Keeps (input i) containers d u) (hmay : MayIssue (input i) u cmd)
    (hanswer : site.Answers d answer d' cmd) :
    site.Keeps (input i) containers d' (learn site.libs (input i) u cmd answer) := by
  cases cmd with
  | identities =>
    obtain rfl : u = .start := hmay
    obtain ⟨rfl, hscan⟩ := hanswer
    cases answer with
    | error e => exact h
    | ok res =>
      show site.Keeps _ _ _ (if res.exitCode = some 0 then _ else _)
      split
      · next hexit => exact h.scanned (hscan res rfl hexit)
      · exact h
  | composeConfig p =>
    obtain ⟨-, -, c, hc, rfl⟩ := hmay
    obtain ⟨rfl, hmodel⟩ := hanswer
    cases answer with
    | error e => exact h
    | ok res =>
      show site.Keeps _ _ _ (if res.exitCode = some 0 then _ else _)
      split
      · next hexit => exact h.read hc (hmodel res rfl hexit)
      · exact h
  | envArgs | probe | imageInfo | imageId | healthSample =>
    obtain rfl := hanswer
    exact h
  | pull p service =>
    obtain ⟨htagged, c, ref, hknows, rfl, rfl⟩ := hmay
    obtain ⟨hc, -⟩ := h.knows hknows
    obtain ⟨hcontainers, htags⟩ := hanswer
    refine h.frame (fun hnone => hcontainers ▸ h.scan hnone) ?_ ?_
    · intro e he
      exact Or.inl (htags _ (hdistinct.hold_ref i e (h.found e he) i c hc))
    · intro e _ hmem
      rw [htagged] at hmem
      cases hmem
  | tag source target =>
    obtain ⟨c, ref, hknows, htag⟩ := hmay
    exact h.own_tag hknows htag hanswer
  | up p pullNever service =>
    obtain ⟨c, ref, hknows, rfl, rfl, htagged⟩ := hmay
    obtain ⟨hc, -⟩ := h.knows hknows
    obtain ⟨-, htags⟩ := hanswer
    refine h.frame (fun hnone => absurd (hknows.1.symm.trans hnone) nofun) ?_ ?_
    · intro e he
      exact Or.inl (htags _ (Or.inr (hdistinct.hold_ref i e (h.found e he) i c hc)))
    · intro e he hmem
      obtain rfl := Option.some.inj (hknows.1.symm.trans he)
      cases pullNever with
      | true => exact Or.inl (htags _ (Or.inl rfl))
      | false =>
        obtain ⟨-, rfl⟩ := h.knows hknows
        exact absurd hmem (hknows.not_retagged (Or.inr htagged))

end

/-! ## All runs -/

section
variable {input : ι → ComposeUpdateInput}

/-- The runs of `compose_update`, before any has begun. -/
def updates (site : Site) (cfg : ι → ComposeConfig) (hasBreaker : ι → Bool)
    (input : ι → ComposeUpdateInput) (fuel : ι → Nat) (d : Daemon) :
    SideBySide ι DockerCall DockerAnswer Str ComposeUpdateResult Daemon :=
  .start d fun i => composeUpdateHandler site.libs (cfg i) (hasBreaker i) (input i) (fuel i)

/-- How far each run is. -/
def progress (site : Site) (input : ι → ComposeUpdateInput)
    (S : SideBySide ι DockerCall DockerAnswer Str ComposeUpdateResult Daemon) : ι → Progress :=
  SideBySide.watched (fun i => updateMonitor site.libs (input i)) (fun _ => .start) S

variable {cfg : ι → ComposeConfig} {hasBreaker : ι → Bool} {fuel : ι → Nat} {d₀ : Daemon}
  {S : SideBySide ι DockerCall DockerAnswer Str ComposeUpdateResult Daemon}

theorem updates_monitored :
    SideBySide.Monitored (fun i => updateMonitor site.libs (input i)) (fun _ => .start)
      (updates site cfg hasBreaker input fuel d₀) :=
  fun i => keeps_composeUpdateHandler site.libs (cfg i) (hasBreaker i) (input i) (fuel i)

variable [DecidableEq ι]

/-- Each run keeps what it holds, whatever the others do in between. -/
theorem updates_keep (hdistinct : site.Distinct input d₀.containers)
    (hreach : SideBySide.Reachable site.answers (updates site cfg hasBreaker input fuel d₀) S)
    (i : ι) : site.Keeps (input i) d₀.containers S.shared (progress site input S i) := by
  refine SideBySide.invariant (I := fun d t => ∀ j, site.Keeps (input j) d₀.containers d (t j))
    updates_monitored ?_ ?_ hreach i
  · exact fun j => ⟨fun _ c hc => hc, nofun, nofun, nofun, nofun⟩
  · intro d t i call answer d' h hallowed hanswer j
    cases call with
    | op cmd =>
      by_cases hj : j = i
      · subst hj
        rw [Function.update_self]
        exact (h j).own hdistinct hallowed hanswer
      · rw [Function.update_of_ne hj]
        exact Site.Keeps.other hdistinct hj h hallowed hanswer
    | append | check | peek | clock =>
      obtain rfl : d' = d := hanswer
      show site.Keeps _ _ _ (Function.update t i (t i) j)
      rw [Function.update_eq_self]
      exact h j

end

/-- Runs of `compose_update` side by side, no hold of which is a reference of any, no two
of which are about one reference, and which share a hold only for one image: whatever a
run tags, and what it recreates its service from when it rolls back, is the image that
the container of the service had when the runs began. -/
theorem rollback_restores [DecidableEq ι] (site : Site) (cfg : ι → ComposeConfig)
    (hasBreaker : ι → Bool) (input : ι → ComposeUpdateInput) (fuel : ι → Nat) (d₀ : Daemon)
    (S : SideBySide ι DockerCall DockerAnswer Str ComposeUpdateResult Daemon)
    (hdistinct : site.Distinct input d₀.containers)
    (hreach : SideBySide.Reachable site.answers (updates site cfg hasBreaker input fuel d₀) S)
    (i : ι) :
    (∀ source target, SideBySide.pending (S.rest i) = some (.op (.tag source target)) →
      ∃ c ∈ candidates (input i) d₀.containers, (progress site input S i).target = some c ∧
        site.resolve S.shared source = some c.imageId) ∧
    ∀ p service, SideBySide.pending (S.rest i) = some (.op (.up p true service)) →
      ∃ c ∈ candidates (input i) d₀.containers, (progress site input S i).target = some c ∧
        p = composeOf (input i) c ∧ service = (input i).service ∧
        site.resolve S.shared (site.image p service) = some c.imageId := by
  have hkeeps := updates_keep hdistinct hreach i
  have hmay : ∀ cmd, SideBySide.pending (S.rest i) = some (.op cmd) →
      MayIssue (input i) (progress site input S i) cmd :=
    fun _ => (SideBySide.monitored updates_monitored hreach).allowed
  constructor
  · intro source target hpending
    obtain ⟨c, ref, hknows, htag⟩ := hmay _ hpending
    exact ⟨c, (hkeeps.knows hknows).1, hknows.1, hkeeps.source hknows htag⟩
  · intro p service hpending
    obtain ⟨c, ref, hknows, rfl, rfl, htagged⟩ := hmay _ hpending
    obtain ⟨hc, rfl⟩ := hkeeps.knows hknows
    refine ⟨c, hc, hknows.1, rfl, rfl, ?_⟩
    obtain ⟨hdigest, htag⟩ := hkeeps.retagged c hknows.1 (by
      rw [htagged]
      exact List.mem_cons_of_mem _ (List.mem_singleton_self _))
    show (if isDigest (site.refOf (input i) c) then _ else _) = _
    rw [if_neg (Bool.eq_false_iff.mp hdigest)]
    exact htag

/-! ## Two stacks -/

def stackImage (digit : Char) : Str :=
  "sha256:".toList ++ List.replicate 64 digit

/-- The container of service `web` of a project, as its labels describe it. -/
def stackContainer (project ref : Str) (digit : Char) : ContainerIdentity where
  name := project ++ "-web-1".toList
  id := project
  ref := ref
  imageId := stackImage digit
  state := "running".toList
  composeProject := project
  composeService := "web".toList
  composeConfigFiles := "/opt/".toList ++ project ++ "/compose.yml".toList
  watchtowerLabel := []
  diunLabel := []
  diunWatchRepoLabel := []
  networkMode := "bridge".toList
  composeEnvFiles := []
  publishedPorts := []

def stackRow (c : ContainerIdentity) : Str :=
  joinWith tab ['/' :: c.name, c.id, c.ref, c.imageId, c.state, c.composeProject, c.composeService,
    c.composeConfigFiles, [], [], [], c.networkMode, [], "null".toList]

/-- Projects `a` and `b`, with a service `web` each. -/
def stackPair (refB : Str) : List ContainerIdentity :=
  [stackContainer "a".toList "nginx:1.25".toList '1', stackContainer "b".toList refB '2']

def stackFile (image : Str) : Json :=
  .obj [("services".toList, .obj [("web".toList, .obj [("image".toList, .str image)])])]

/-- The compose files of the two projects; a file's text is its path. -/
def stackSite (refB : Str) : Site where
  libs :=
    { parseYaml text := .ok (stackFile
        (if text = "/opt/a/compose.yml".toList then "nginx:1.25".toList else refB))
      parseUrl _ := none }
  canonical := id
  image p _ := if p.path = "/opt/a/compose.yml".toList then "nginx:1.25".toList else refB

def stackInput (project : Str) : ComposeUpdateInput where
  vmid := 104
  composePath := "/opt/".toList ++ project ++ "/compose.yml".toList
  service := "web".toList
  healthTimeoutSec := none
  stableSec := none
  probe := none
  allowWatchtowerManaged := false
  confirm := true
  overrideCircuitBreaker := false

/-- A daemon for them: each pull finds a new image, no recreate succeeds. -/
def stackAnswer (refB : Str) (d : Daemon) : (c : DockerCall) → DockerAnswer c × Daemon
  | .op .identities =>
    (.ok (if d.containers = stackPair refB then
        ⟨(stackPair refB).map stackRow |> joinWith newline, [], some 0⟩
      else ⟨[], [], some 1⟩), d)
  | .op (.composeConfig p) => (.ok ⟨p.path, [], some 0⟩, d)
  | .op (.imageId _) => (.ok ⟨stackImage '9', [], some 0⟩, d)
  | .op (.pull p service) =>
    (.ok ⟨[], [], some 0⟩, d.setTag ((stackSite refB).image p service) (stackImage '9'))
  | .op (.tag source target) =>
    match (stackSite refB).resolve d source with
    | some id =>
      if isDigest target then (.ok ⟨[], [], some 1⟩, d)
      else (.ok ⟨[], [], some 0⟩, d.setTag target id)
    | none => (.ok ⟨[], [], some 1⟩, d)
  | .op (.up _ _ _) => (.ok ⟨[], [], some 1⟩, d)
  | .op _ => (.ok ⟨[], [], some 0⟩, d)
  | .append _ => ((), d)
  | .check _ | .peek _ => (⟨false, 1, 3, 600000⟩, d)
  | .clock => (0, d)

theorem stackSite_answers {refB : Str}
    (hrows : parseContainerIdentities ((stackPair refB).map stackRow |> joinWith newline) =
      stackPair refB) (d : Daemon) (i : Bool) (c : DockerCall) :
    (stackSite refB).answers d i c (stackAnswer refB d c).1 (stackAnswer refB d c).2 := by
  cases c with
  | append | check | peek | clock => exact (rfl : d = d)
  | op cmd =>
    cases cmd with
    | envArgs | probe | imageInfo | imageId | healthSample => exact (rfl : d = d)
    | identities =>
      refine ⟨rfl, fun res hres hexit => ?_⟩
      cases hres
      by_cases hd : d.containers = stackPair refB
      · rw [if_pos hd, hrows, hd]
      · rw [if_neg hd] at hexit
        cases hexit
    | composeConfig p =>
      refine ⟨rfl, fun res hres _ model hmodel => ?_⟩
      cases hres
      cases hmodel
      intro svc hsvc ref href
      obtain rfl := List.mem_singleton.mp hsvc
      cases href
      rfl
    | pull p service => exact ⟨rfl, fun name hname => Function.update_of_ne hname _ _⟩
    | tag source target =>
      unfold stackAnswer
      dsimp only
      cases hid : (stackSite refB).resolve d source with
      | none => exact Or.inl ⟨rfl, rfl⟩
      | some id =>
        by_cases htarget : isDigest target = true
        · dsimp only
          rw [if_pos htarget]
          exact Or.inl ⟨rfl, rfl⟩
        · dsimp only
          rw [if_neg htarget]
          exact Or.inr ⟨id, hid, Bool.eq_false_iff.mpr htarget, rfl⟩
    | up p pullNever service => exact ⟨fun c hc => Or.inl hc, fun _ _ => rfl⟩

def stackConfig : ComposeConfig :=
  ⟨"pve".toList, none, [], 30000, none⟩

def stackInputs (isB : Bool) : ComposeUpdateInput :=
  stackInput (if isB then ['b'] else ['a'])

/-- The two updates, before they begin. -/
def stackStart (refB : Str) :
    SideBySide Bool DockerCall DockerAnswer Str ComposeUpdateResult Daemon :=
  updates (stackSite refB) (fun _ => stackConfig) (fun _ => false) stackInputs (fun _ => 1)
    ⟨stackPair refB, fun name =>
      if name = "nginx:1.25".toList then some (stackImage '1')
      else if name = refB then some (stackImage '2')
      else none⟩

/-- `a` holds its image and fails to come up; `b` holds its own; `a` tags its image back. -/
def stackPlay (refB : Str) :
    SideBySide Bool DockerCall DockerAnswer Str ComposeUpdateResult Daemon :=
  SideBySide.play (stackAnswer refB) (stackStart refB)
    (List.replicate 8 false ++ List.replicate 7 true ++ [false])

theorem reachable_stackPlay {refB : Str}
    (hrows : parseContainerIdentities ((stackPair refB).map stackRow |> joinWith newline) =
      stackPair refB) :
    SideBySide.Reachable (stackSite refB).answers (stackStart refB) (stackPlay refB) :=
  SideBySide.reachable_play (stackSite_answers hrows) _

/-- With `redis` beside `nginx` the image of `a` comes back. -/
theorem rollback_restores_redis :
    (match SideBySide.pending ((stackPlay "redis:7".toList).rest false) with
      | some (.op (.up _ true _)) => true
      | _ => false) = true ∧
    ∀ p service,
      SideBySide.pending ((stackPlay "redis:7".toList).rest false) = some (.op (.up p true service)) →
      ∃ c ∈ candidates (stackInput ['a']) (stackPair "redis:7".toList),
        (progress (stackSite "redis:7".toList) stackInputs (stackPlay "redis:7".toList) false).target =
            some c ∧
          p = composeOf (stackInput ['a']) c ∧ service = "web".toList ∧
          (stackSite "redis:7".toList).resolve (stackPlay "redis:7".toList).shared
            ((stackSite "redis:7".toList).image p service) = some c.imageId :=
  have hdistinct : (stackSite "redis:7".toList).Distinct stackInputs
      (stackPair "redis:7".toList) :=
    ⟨by decide +kernel, by decide +kernel, by decide +kernel⟩
  ⟨by decide +kernel, (rollback_restores (stackSite "redis:7".toList) (fun _ => stackConfig) (fun _ => false)
    stackInputs (fun _ => 1) _ (stackPlay "redis:7".toList) hdistinct
    (reachable_stackPlay (by decide +kernel)) false).2⟩

/-- With two versions of `nginx` both runs use the tag `nginx:mcp-hold-web`, and `a`
is made from the image of `b`. -/
theorem not_rollback_restores :
    SideBySide.Reachable (stackSite "nginx:1.26".toList).answers
        (stackStart "nginx:1.26".toList) (stackPlay "nginx:1.26".toList) ∧
      (match SideBySide.pending ((stackPlay "nginx:1.26".toList).rest false) with
        | some (.op (.up p true service)) =>
          decide ((stackSite "nginx:1.26".toList).resolve (stackPlay "nginx:1.26".toList).shared
            ((stackSite "nginx:1.26".toList).image p service) = some (stackImage '2'))
        | _ => false) = true ∧
      candidates (stackInput ['a']) (stackPair "nginx:1.26".toList) =
        [stackContainer ['a'] "nginx:1.25".toList '1'] :=
  ⟨reachable_stackPlay (by decide +kernel), by decide +kernel, by decide +kernel⟩

end HomelabMcp.Docker
