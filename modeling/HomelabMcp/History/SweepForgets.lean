import HomelabMcp.History.Checksums
import HomelabMcp.History.ConfigSweep
import HomelabMcp.Lib.LinkedTree

/-!
# What a sweep takes out of the mirror

Mutations and sweeps share one mirror. A sweep removes the files that `find` does not
list, whatever put them there.

- `sweepOneTarget_removes`: what a sweep removes was not enumerated.
- `run_forgetsOnlyGone`: over any run, a sweep removes only what is gone, as long as what
  the mirror holds and the node still has is what `find` lists.
-/

namespace HomelabMcp.History

open SlashPath Text Integrity Backup KeyedList FilePath Effect Tools

/-! ## The node -/

/-- The files of a node or of a container, and where its commands start. -/
structure Remote where
  tree : LinkedTree Bytes
  cwd : FilePath

namespace Remote

/-- The content of the file at a path, links followed. -/
def fileAt (remote : Remote) (path : Str) : Option Bytes :=
  remote.tree.fileAt remote.cwd path

/-- Where `find` starts; without an argument, in the working directory. -/
def startingPoints (watchPaths : List Str) : List Str :=
  if watchPaths = [] then [here] else watchPaths

/-- The files that `find` visits, with their sizes. -/
def visited (remote : Remote) (watchPaths : List Str) : List (Nat × Str) :=
  (startingPoints watchPaths).flatMap fun start =>
    ((remote.tree.found remote.cwd start).getD []).map fun f => (f.2.length, f.1)

/-- What `find … -type f -printf '%s\t%p\n'` prints. -/
def findOutput (remote : Remote) (watchPaths : List Str) : Str :=
  (remote.visited watchPaths).flatMap findLine

/-- `find` passes this place, and calls it what it is called. -/
structure Listed (remote : Remote) (watchPaths : List Str) (p : FilePath) : Prop where
  regular : ∃ b, remote.tree.entry p = some (.file b)
  reached : ∃ start ∈ startingPoints watchPaths, ∃ w,
    remote.tree.start remote.cwd start = some w ∧ w <+: p ∧
      LinkedTree.nameBelow start (p.drop w.length) = remoteText p
  fits : FitsLine (remoteText p)

theorem Listed.mem_findOutput {remote : Remote} {watchPaths : List Str} {p : FilePath}
    (hlisted : remote.Listed watchPaths p) :
    remoteText p ∈
      (parseFindEnumeration (remote.findOutput watchPaths)).map EnumeratedFile.path := by
  obtain ⟨b, hfile⟩ := hlisted.regular
  obtain ⟨start, hstart, w, hw, hbelow, hname⟩ := hlisted.reached
  have hmem : (b.length, remoteText p) ∈ remote.visited watchPaths := by
    refine List.mem_flatMap.mpr ⟨start, hstart, ?_⟩
    unfold LinkedTree.found
    rw [hw, Option.map_some, Option.getD_some, ← hname]
    exact List.mem_map_of_mem (LinkedTree.mem_filesBelow hfile hbelow)
  exact List.mem_map_of_mem (mem_parseFindEnumeration hmem hlisted.fits)

/-- Files below a directory that is watched under its own name are listed. -/
theorem listed_below {remote : Remote} {watchPaths : List Str} {w p : FilePath} {b : Bytes}
    (hfile : remote.tree.entry p = some (.file b)) (hwatched : remoteText w ∈ watchPaths)
    (hbelow : w <+: p) (hfits : FitsLine (remoteText p)) : remote.Listed watchPaths p := by
  refine ⟨⟨b, hfile⟩, ⟨remoteText w, ?_, w, ?_, hbelow, ?_⟩, hfits⟩
  · unfold startingPoints
    rwa [if_neg (List.ne_nil_of_mem hwatched)]
  · by_cases hw : w = p
    · subst hw
      exact LinkedTree.start_text hfile nofun
    · exact LinkedTree.start_text (LinkedTree.entry_above hfile hbelow hw) nofun
  · obtain ⟨r, rfl⟩ := hbelow
    rw [List.drop_left]
    exact LinkedTree.nameBelow_text w r

end Remote

/-- An argument that `find` takes for a part of its expression. -/
def StartsExpression (arg : Str) : Prop :=
  arg.head? = some '-' ∨ arg ∈ ["(".toList, ")".toList, "!".toList, ",".toList]

instance : DecidablePred StartsExpression := fun arg =>
  inferInstanceAs (Decidable (arg.head? = some '-' ∨ arg ∈ _))

/-- When `find` succeeds, it has listed what there is. -/
def FindAnswers (node : Node) (remote : Remote) (watchPaths : List Str) (vmid : Option Nat) :
    Prop :=
  (∀ path ∈ watchPaths, ¬StartsExpression path) →
    ∀ asked res, node.exec asked (buildFindEnumCommand watchPaths vmid) = .ok res →
      res.exitCode = some 0 → res.stdout = remote.findOutput watchPaths

/-! ## What the steps keep -/

/-- No file leaves the mirror, and no directory. -/
structure Grows (s t : Session) : Prop where
  files : ∀ q, (s.repo.tree.read q).isSome → (t.repo.tree.read q).isSome
  dirs : ∀ q, q ∈ s.repo.tree.dirs → q ∈ t.repo.tree.dirs

theorem Grows.refl (s : Session) : Grows s s :=
  ⟨fun _ h => h, fun _ h => h⟩

theorem Grows.trans (s t r : Session) (hst : Grows s t) (htr : Grows t r) : Grows s r :=
  ⟨fun q h => htr.files q (hst.files q h), fun q h => htr.dirs q (hst.dirs q h)⟩

/-- The mirror's files stay as they are. -/
def SameTree (s t : Session) : Prop := s.repo.tree = t.repo.tree

theorem SameTree.refl (s : Session) : SameTree s s := Eq.refl s.repo.tree

theorem SameTree.trans (s t r : Session) (hst : SameTree s t) (htr : SameTree t r) :
    SameTree s r :=
  Eq.trans hst htr

theorem SameTree.grows (s t : Session) (h : SameTree s t) : Grows s t :=
  ⟨fun q hq => by rwa [← h], fun q hq => by rwa [← h]⟩

variable {α β : Type} {x : Action α} {f : α → Action β}

theorem sameTree_pure (a : α) : Keeps SameTree (pure a : Action α) :=
  Keeps.pure SameTree.refl a

theorem sameTree_throw (e : Str) : Keeps SameTree (throw e : Action α) :=
  Keeps.throw SameTree.refl e

theorem sameTree_bind (hx : Keeps SameTree x) (hf : ∀ a, Keeps SameTree (f a)) :
    Keeps SameTree (x >>= f) :=
  Keeps.bind SameTree.trans hx hf

theorem sameTree_tryCatch {handler : Str → Action α} (hx : Keeps SameTree x)
    (hh : ∀ e, Keeps SameTree (handler e)) : Keeps SameTree (tryCatch x handler) :=
  Keeps.tryCatch SameTree.trans hx hh

theorem tree_after (hx : Keeps SameTree x) (s : Session) : (after x s).repo.tree = s.repo.tree :=
  (hx s).symm

theorem grows_bind (hx : Keeps Grows x) (hf : ∀ a, Keeps Grows (f a)) : Keeps Grows (x >>= f) :=
  Keeps.bind Grows.trans hx hf

theorem sameTree_answer {request : Request} {reply : List Request → Except Str α} :
    Keeps SameTree (answer request reply) := by
  intro s
  unfold after answer
  cases reply s.asked <;> rfl

theorem sameTree_orThrow (r : Except Str α) : Keeps SameTree (orThrow r) := by
  cases r with
  | ok a => exact sameTree_pure a
  | error e => exact sameTree_throw e

section
variable {node : Node} {h : ConfigHistory} {cfg : HistoryConfig} {target : SweepTarget}

theorem sameTree_exec (command : Str) : Keeps SameTree (node.transport.exec command) := by
  show Keeps SameTree (answer (.exec command) fun asked => node.exec asked command)
  exact sameTree_answer

theorem sameTree_readFile (path : Str) : Keeps SameTree (node.transport.readFile path) := by
  show Keeps SameTree (answer (.readFile path) fun asked => node.readFile asked path)
  exact sameTree_answer

theorem sameTree_createNodeTemp (tempDir : Str) :
    Keeps SameTree (createNodeTemp node.transport tempDir) := by
  refine sameTree_bind (sameTree_exec _) fun res => ?_
  split
  · exact sameTree_throw _
  · split
    · exact sameTree_throw _
    · exact sameTree_pure _

theorem sameTree_removeNodeTemp (tmp : Str) :
    Keeps SameTree (removeNodeTemp node.transport tmp) :=
  sameTree_tryCatch (sameTree_bind (sameTree_exec _) fun _ => sameTree_pure ()) fun _ =>
    sameTree_pure ()

theorem sameTree_pullToTemp (vmid : Nat) (path tmp : Str) :
    Keeps SameTree (pullToTemp node.transport vmid path tmp) := by
  refine sameTree_bind (sameTree_exec _) fun res => ?_
  split
  · split
    · exact sameTree_pure _
    · exact sameTree_throw _
  · exact sameTree_bind (sameTree_readFile tmp) fun _ => sameTree_pure _

theorem sameTree_pullContainerFile (vmid : Nat) (path tempDir : Str) :
    Keeps SameTree (pullContainerFile node.transport vmid path tempDir) := by
  refine sameTree_bind (sameTree_bind (sameTree_exec _) fun _ => sameTree_pure _) fun found => ?_
  split
  · refine sameTree_bind (sameTree_createNodeTemp tempDir) fun tmp => ?_
    refine sameTree_bind (sameTree_tryCatch (sameTree_bind (sameTree_pullToTemp vmid path tmp)
      fun _ => sameTree_pure _) fun _ => sameTree_pure _) fun outcome => ?_
    refine sameTree_bind (sameTree_removeNodeTemp tmp) fun _ => ?_
    cases outcome with
    | ok content => exact sameTree_pure _
    | error e => exact sameTree_throw e
  · exact sameTree_pure _

theorem sameTree_fetchContent (abs : Str) :
    Keeps SameTree (fetchContent node.transport cfg target abs) := by
  cases target with
  | host =>
    exact sameTree_tryCatch (sameTree_bind (sameTree_readFile abs) fun _ => sameTree_pure _)
      fun _ => sameTree_pure _
  | guest vmid => exact sameTree_pullContainerFile vmid abs cfg.nodeTempDir

theorem sameTree_hashBatches (batches : List (List Str)) (hashes : List (Str × Str)) :
    Keeps SameTree (hashBatches node.transport target batches hashes) := by
  induction batches generalizing hashes with
  | nil => exact sameTree_pure _
  | cons batch batches ih =>
    unfold hashBatches
    split
    · exact ih hashes
    · refine sameTree_bind (sameTree_exec _) fun res => ?_
      split
      · exact sameTree_pure _
      · exact ih _

theorem sameTree_statBatches (batches : List (List Str)) (manifest : Manifest) :
    Keeps SameTree (statBatches node.transport target batches manifest) := by
  induction batches generalizing manifest with
  | nil => exact sameTree_pure _
  | cons batch batches ih =>
    unfold statBatches
    split
    · exact ih manifest
    · exact sameTree_bind (sameTree_exec _) fun res => ih _

theorem sameTree_readManifest (key : Str) : Keeps SameTree (readManifest key) := fun s =>
  SameTree.refl s

theorem sameTree_writeManifest (key : Str) (manifest : Manifest) :
    Keeps SameTree (writeManifest key manifest) := fun s => SameTree.refl s

theorem sameTree_refreshManifest (toFetch toDelete : List Str) (skipped : List EnumeratedFile) :
    Keeps SameTree (refreshManifest node.transport cfg target toFetch toDelete skipped) :=
  sameTree_bind (sameTree_readManifest _) fun _ =>
    sameTree_bind (sameTree_statBatches _ _) fun _ => sameTree_writeManifest _ _

theorem sameTree_statPerms (backupTarget : BackupTarget) :
    Keeps SameTree (statPerms node.transport backupTarget) :=
  sameTree_tryCatch (sameTree_bind (sameTree_exec _) fun _ => sameTree_pure _) fun _ =>
    sameTree_pure _

theorem grows_setTree {s : Session} {tree : FileTree FileName Bytes} {place : FilePath} {b : Bytes}
    (h : s.repo.tree.write place b = .ok tree) : Grows s (after (setTree tree) s) := by
  refine ⟨fun q hq => ?_, fun q hq => (FileTree.mem_dirs_write h).mpr (Or.inl hq)⟩
  show (tree.read q).isSome
  rw [FileTree.read_write h]
  split
  · rfl
  · exact hq

theorem getRepo_bind {s : Session} {f : Repo → Action β} : (getRepo >>= f) s = f s.repo s := rfl

theorem after_getRepo_bind {s : Session} {f : Repo → Action β} :
    after (getRepo >>= f) s = after (f s.repo) s := rfl

theorem grows_writeMirrorContent (rel : Str) (content : Bytes) :
    Keeps Grows (h.writeMirrorContent rel content) := by
  refine grows_bind ((sameTree_orThrow _).mono SameTree.grows) fun place => ?_
  intro s
  rw [after_getRepo_bind]
  cases hwrite : s.repo.tree.write place content with
  | ok tree => exact grows_setTree hwrite
  | error e => exact Grows.refl s

theorem grows_fetchAll (mirrorHashes : List (Str × Str)) (toFetch : List Str) (counts : Nat × Nat) :
    Keeps Grows (fetchAll h node.transport cfg target mirrorHashes toFetch counts) := by
  induction toFetch generalizing counts with
  | nil => exact Keeps.pure Grows.refl _
  | cons abs rest ih =>
    refine grows_bind ((sameTree_fetchContent abs).mono SameTree.grows) fun content => ?_
    cases content with
    | none => exact ih counts
    | some content =>
      exact grows_bind ((sameTree_orThrow _).mono SameTree.grows) fun rel =>
        grows_bind (grows_writeMirrorContent rel content) fun _ => ih _

/-- A mutation takes no file out of the mirror. -/
theorem grows_recordMutation (committed : Bool) (backupTarget : BackupTarget) (content : Bytes) :
    Keeps Grows (recordMutation h node.transport committed backupTarget content) := by
  unfold recordMutation
  split
  · exact Keeps.pure Grows.refl _
  refine Keeps.tryCatch Grows.trans ?_ fun _ => Keeps.pure Grows.refl _
  refine grows_bind ((sameTree_orThrow _).mono SameTree.grows) fun mapping => ?_
  refine grows_bind (grows_writeMirrorContent _ _) fun _ => Keeps.mono ?_ SameTree.grows
  refine sameTree_bind (sameTree_statPerms backupTarget) fun perms => ?_
  cases perms with
  | none => exact sameTree_bind (sameTree_pure _) fun _ => sameTree_pure _
  | some perms =>
    exact sameTree_bind (sameTree_readManifest mapping.manifestKey) fun manifest =>
      sameTree_bind (sameTree_writeManifest _ _) fun _ => sameTree_pure _

end

/-! ## What a sweep removes -/

section
variable {node : Node} {h : ConfigHistory} {cfg : HistoryConfig} {target : SweepTarget}
  {s : Session} {q : FilePath}

theorem orThrow_bind_ok {α β : Type} {r : Except Str α} {a : α} {f : α → Action β}
    (hr : r = .ok a) : (orThrow r >>= f) s = f a s := by
  subst hr
  rfl

theorem orThrow_bind_error {α β : Type} {r : Except Str α} {e : Str} {f : α → Action β}
    (hr : r = .error e) : (orThrow r >>= f) s = .error e s := by
  subst hr
  rfl

/-- Removing a file fails, or takes one file out of the tree. -/
theorem removeMirrorContent_cases (rel : Str) :
    (∃ e, h.removeMirrorContent rel s = .error e s) ∨
      ∃ place, mirrorAbsPath h.repoDir rel = .ok place ∧
        h.removeMirrorContent rel s =
          .ok () { s with repo := { s.repo with tree := s.repo.tree.remove place } } := by
  unfold ConfigHistory.removeMirrorContent
  cases hplace : mirrorAbsPath h.repoDir rel with
  | error e => exact Or.inl ⟨e, rfl⟩
  | ok place =>
    by_cases hdir : place ∈ s.repo.tree.dirs
    · refine Or.inl ⟨h.removeErrorText place, ?_⟩
      show (if place ∈ s.repo.tree.dirs then throw _ else setTree _ : Action Unit) s = _
      rw [if_pos hdir]
      rfl
    · refine Or.inr ⟨place, rfl, ?_⟩
      show (if place ∈ s.repo.tree.dirs then throw _ else setTree _ : Action Unit) s = _
      rw [if_neg hdir]
      rfl

theorem removeAll_removes {paths : List Str} (hfile : (s.repo.tree.read q).isSome)
    (hgone : (after (removeAll h target paths) s).repo.tree.read q = none) :
    ∃ abs ∈ paths, ∃ rel, mirrorRelPathForSweepFile target abs = .ok rel ∧
      mirrorAbsPath h.repoDir rel = .ok q := by
  induction paths generalizing s with
  | nil =>
    rw [show (after (removeAll h target []) s) = s from rfl] at hgone
    rw [hgone] at hfile
    cases hfile
  | cons abs rest ih =>
    unfold removeAll at hgone
    cases hrel : mirrorRelPathForSweepFile target abs with
    | error e =>
      rw [after_of_error (orThrow_bind_error hrel)] at hgone
      rw [hgone] at hfile
      cases hfile
    | ok rel =>
      unfold after at hgone
      rw [orThrow_bind_ok hrel] at hgone
      change (after (h.removeMirrorContent rel >>= fun _ => removeAll h target rest) s).repo.tree.read q
        = none at hgone
      rcases removeMirrorContent_cases (h := h) (s := s) rel with ⟨e, he⟩ | ⟨place, hplace, hok⟩
      · rw [after_bind_of_error he] at hgone
        rw [hgone] at hfile
        cases hfile
      · rw [after_bind_of_ok hok] at hgone
        by_cases hq : q = place
        · exact ⟨abs, List.mem_cons_self, rel, hrel, hq ▸ hplace⟩
        · have hstill : (({ s with
              repo := { s.repo with tree := s.repo.tree.remove place } } : Session).repo.tree.read
                q).isSome := by
            show ((s.repo.tree.remove place).read q).isSome
            rw [FileTree.read_remove, if_neg hq]
            exact hfile
          obtain ⟨abs', hmem, hrest⟩ := ih hstill hgone
          exact ⟨abs', List.mem_cons_of_mem abs hmem, hrest⟩

theorem listMirrorFiles_eq_ok {repo : Repo} {rels : List Str}
    (hlist : h.listMirrorFiles repo (repoPrefixForSweepTarget target) = .ok rels) :
    rels = (repo.tree.listBelow (fun n => decide (n.val = ConfigHistory.gitDirName))
        target.place).map FilePath.text ∧
      repo.tree.read target.place = none := by
  unfold ConfigHistory.listMirrorFiles at hlist
  rw [← text_place, mirrorAbsPath_text] at hlist
  by_cases hroot : (repo.tree.read target.place).isSome
  · change (if (repo.tree.read target.place).isSome then _ else _) = _ at hlist
    rw [if_pos hroot] at hlist
    cases hlist
  · change (if (repo.tree.read target.place).isSome then _ else _) = _ at hlist
    rw [if_neg hroot] at hlist
    exact ⟨(Except.ok.inj hlist).symm, Option.not_isSome_iff_eq_none.mp hroot⟩

theorem absOf_text {p : FilePath} (hp : p ≠ []) :
    absOf target (FilePath.text (target.place ++ p)) = remoteText p := by
  unfold absOf
  rw [text_append target.place_ne_nil hp, text_place, List.append_cons,
    List.drop_left' (by rw [List.length_append, List.length_singleton])]
  rfl

theorem mirrorDiff_eq_ok {repo : Repo} {enumerated : List EnumeratedFile} {candidates : List Str}
    {remoteHashes mirrorHashes : List (Str × Str)} {diff : DiffResult}
    (hdiff : mirrorDiff h target repo enumerated candidates remoteHashes =
      .ok (mirrorHashes, diff)) :
    ∃ rels, h.listMirrorFiles repo (repoPrefixForSweepTarget target) = .ok rels ∧
      hashMirror h target repo rels = .ok mirrorHashes ∧
      diff = diffAgainstMirror candidates remoteHashes mirrorHashes (rels.map (absOf target))
        (enumerated.map EnumeratedFile.path) := by
  unfold mirrorDiff at hdiff
  cases hlist : h.listMirrorFiles repo (repoPrefixForSweepTarget target) with
  | error e =>
    rw [hlist] at hdiff
    cases hdiff
  | ok rels =>
    rw [hlist] at hdiff
    change (hashMirror h target repo rels >>= fun _ => _) = _ at hdiff
    cases hhashes : hashMirror h target repo rels with
    | error e =>
      rw [hhashes] at hdiff
      cases hdiff
    | ok hashes =>
      rw [hhashes] at hdiff
      cases hdiff
      exact ⟨rels, rfl, hhashes, rfl⟩

/-- What is to be deleted is in the mirror, and was not enumerated. -/
theorem of_mem_toDelete {repo : Repo} {enumerated : List EnumeratedFile} {candidates : List Str}
    {remoteHashes mirrorHashes : List (Str × Str)} {diff : DiffResult} {abs : Str}
    (hdiff : mirrorDiff h target repo enumerated candidates remoteHashes =
      .ok (mirrorHashes, diff)) (habs : abs ∈ diff.toDelete) :
    ∃ p, p ≠ [] ∧ abs = remoteText p ∧ (repo.tree.read (target.place ++ p)).isSome ∧
      (∀ n ∈ p, n.val ≠ ConfigHistory.gitDirName) ∧
      abs ∉ enumerated.map EnumeratedFile.path := by
  obtain ⟨rels, hlist, -, rfl⟩ := mirrorDiff_eq_ok hdiff
  obtain ⟨hmirror, hgone⟩ := mem_toDelete.mp habs
  obtain ⟨hrels, hroot⟩ := listMirrorFiles_eq_ok hlist
  obtain ⟨rel, hrel, rfl⟩ := List.mem_map.mp hmirror
  rw [hrels] at hrel
  obtain ⟨place, hplace, rfl⟩ := List.mem_map.mp hrel
  obtain ⟨p, rfl, ⟨b, hread⟩, hshown⟩ := FileTree.mem_listBelow.mp hplace
  have hp : p ≠ [] := by
    rintro rfl
    rw [List.append_nil, hroot] at hread
    cases hread
  refine ⟨p, hp, absOf_text hp, ?_, fun n hn => of_decide_eq_false (hshown n hn), hgone⟩
  rw [hread]
  rfl

theorem applyDiff_removes {classified : ClassifyResult} {mirrorHashes : List (Str × Str)}
    {diff : DiffResult} (hfile : (s.repo.tree.read q).isSome)
    (hgone : (after (applyDiff h node.transport cfg target classified mirrorHashes diff)
      s).repo.tree.read q = none) :
    ∃ abs ∈ diff.toDelete, ∃ rel, mirrorRelPathForSweepFile target abs = .ok rel ∧
      mirrorAbsPath h.repoDir rel = .ok q := by
  unfold applyDiff at hgone
  have hgrows : Keeps Grows (fetchAll h node.transport cfg target mirrorHashes diff.toFetch (0, 0)) :=
    grows_fetchAll mirrorHashes diff.toFetch (0, 0)
  cases hfetch : fetchAll h node.transport cfg target mirrorHashes diff.toFetch (0, 0) s with
  | error e t =>
    rw [after_bind_of_error hfetch] at hgone
    have hsome := (after_of_error hfetch ▸ hgrows s).files q hfile
    rw [hgone] at hsome
    cases hsome
  | ok counts t =>
    rw [after_bind_of_ok hfetch] at hgone
    refine removeAll_removes ((after_of_ok hfetch ▸ hgrows s).files q hfile) ?_
    cases hremove : removeAll h target diff.toDelete t with
    | error e r =>
      rw [after_bind_of_error hremove] at hgone
      rw [after_of_error hremove]
      exact hgone
    | ok u r =>
      rw [after_bind_of_ok hremove] at hgone
      rw [after_of_ok hremove]
      rw [tree_after (sameTree_bind (sameTree_refreshManifest diff.toFetch diff.toDelete
        classified.skippedOversize) fun _ => sameTree_pure _)] at hgone
      exact hgone

/-- What `updateMirror` removes was not enumerated. -/
theorem updateMirror_removes {enumerated : List EnumeratedFile} {classified : ClassifyResult}
    {remoteHashes : List (Str × Str)} (hfile : (s.repo.tree.read q).isSome)
    (hgone : (after (updateMirror h node.transport cfg target enumerated classified remoteHashes)
      s).repo.tree.read q = none) :
    ∃ p, q = target.place ++ p ∧ (∀ n ∈ p, n.val ≠ ConfigHistory.gitDirName) ∧
      remoteText p ∉ enumerated.map EnumeratedFile.path := by
  unfold updateMirror at hgone
  change (after (orThrow (mirrorDiff h target s.repo enumerated classified.candidates
    remoteHashes) >>= _) s).repo.tree.read q = none at hgone
  cases hdiff : mirrorDiff h target s.repo enumerated classified.candidates remoteHashes with
  | error e =>
    rw [after_of_error (orThrow_bind_error hdiff)] at hgone
    rw [hgone] at hfile
    cases hfile
  | ok compared =>
    obtain ⟨mirrorHashes, diff⟩ := compared
    unfold after at hgone
    rw [orThrow_bind_ok hdiff] at hgone
    obtain ⟨abs, habs, rel, hrel, hplace⟩ := applyDiff_removes hfile hgone
    obtain ⟨p, hp, rfl, -, hshown, hgone⟩ := of_mem_toDelete hdiff habs
    rw [mirrorRelPathForSweepFile_text target hp] at hrel
    obtain rfl := Except.ok.inj hrel
    rw [mirrorAbsPath_text] at hplace
    exact ⟨p, (Except.ok.inj hplace).symm, hshown, hgone⟩

theorem answer_ok {α : Type} {request : Request} {reply : List Request → Except Str α} {a : α}
    (hreply : reply s.asked = .ok a) :
    answer request reply s = .ok a { s with asked := s.asked ++ [request] } := by
  unfold answer
  rw [hreply]

theorem answer_error {α : Type} {request : Request} {reply : List Request → Except Str α} {e : Str}
    (hreply : reply s.asked = .error e) :
    answer request reply s = .error e { s with asked := s.asked ++ [request] } := by
  unfold answer
  rw [hreply]

theorem transport_exec (node : Node) (command : Str) :
    node.transport.exec command =
      answer (.exec command) fun asked => node.exec asked command := rfl

/-- The answer to a command, and that nothing else happens. -/
theorem exec_cases (node : Node) (s : Session) (command : Str) :
    (∃ e t, node.transport.exec command s = .error e t ∧ t.repo = s.repo) ∨
      ∃ res t, node.exec s.asked command = .ok res ∧
        node.transport.exec command s = .ok res t ∧ t.repo = s.repo := by
  rw [transport_exec]
  cases hres : node.exec s.asked command with
  | error e =>
    refine Or.inl ⟨e, { s with asked := s.asked ++ [.exec command] }, ?_, rfl⟩
    exact answer_error hres
  | ok res =>
    refine Or.inr ⟨res, { s with asked := s.asked ++ [.exec command] }, rfl, ?_, rfl⟩
    exact answer_ok hres

/-- The files a sweep of the target has listed. -/
def Enumerated (node : Node) (cfg : HistoryConfig) (target : SweepTarget)
    (enumerated : List EnumeratedFile) : Prop :=
  ∃ asked res,
    node.exec asked (buildFindEnumCommand (watchPathsFor cfg target) target.vmid) = .ok res ∧
      res.exitCode = some 0 ∧ enumerated = parseFindEnumeration res.stdout

theorem sweepRunning_removes (hfile : (s.repo.tree.read q).isSome)
    (hgone : (after (sweepRunning h node.transport cfg target) s).repo.tree.read q = none) :
    ∃ p, q = target.place ++ p ∧ (∀ n ∈ p, n.val ≠ ConfigHistory.gitDirName) ∧
      ∃ enumerated, Enumerated node cfg target enumerated ∧
        remoteText p ∉ enumerated.map EnumeratedFile.path := by
  have hkept {t : Session} (hsame : t.repo.tree = s.repo.tree)
      (hnone : t.repo.tree.read q = none) : False := by
    rw [hsame] at hnone
    rw [hnone] at hfile
    cases hfile
  unfold sweepRunning at hgone
  rcases exec_cases node s (buildFindEnumCommand (watchPathsFor cfg target) target.vmid) with
    ⟨e, t, hexec, hrepo⟩ | ⟨res, t, hres, hexec, hrepo⟩
  · rw [after_bind_of_error hexec] at hgone
    exact (hkept (congrArg Repo.tree hrepo) hgone).elim
  rw [after_bind_of_ok hexec] at hgone
  by_cases hexit : res.exitCode ≠ some 0
  · rw [if_pos hexit] at hgone
    exact (hkept (congrArg Repo.tree hrepo) hgone).elim
  rw [if_neg hexit] at hgone
  dsimp only at hgone
  -- Hashing changes nothing, and a failed batch ends the sweep.
  have hhash : Keeps SameTree (hashBatches node.transport target
      (chunk (classifyEnumeration (parseFindEnumeration res.stdout) cfg.excludePatterns
        cfg.sweepFileSizeCapBytes).candidates cfg.sweepHashBatchSize) []) :=
    sameTree_hashBatches _ []
  cases hbatches : hashBatches node.transport target
      (chunk (classifyEnumeration (parseFindEnumeration res.stdout) cfg.excludePatterns
        cfg.sweepFileSizeCapBytes).candidates cfg.sweepHashBatchSize) [] t with
  | error e u =>
    have htree := after_of_error hbatches ▸ tree_after hhash t
    rw [after_bind_of_error hbatches] at hgone
    exact (hkept (htree.trans (congrArg Repo.tree hrepo)) hgone).elim
  | ok hashed u =>
    have htree := (after_of_ok hbatches ▸ tree_after hhash t).trans (congrArg Repo.tree hrepo)
    rw [after_bind_of_ok hbatches] at hgone
    cases hashed with
    | error message => exact (hkept htree hgone).elim
    | ok remoteHashes =>
      rw [after_bind_pure] at hgone
      rw [← htree] at hfile
      obtain ⟨p, hq, hshown, hmissing⟩ := updateMirror_removes hfile hgone
      exact ⟨p, hq, hshown, _, ⟨s.asked, res, hres, not_not.mp hexit, rfl⟩, hmissing⟩

/-- What a sweep removes was not enumerated. -/
theorem sweepOneTarget_removes (hfile : (s.repo.tree.read q).isSome)
    (hgone : (after (sweepOneTarget h node.transport cfg target) s).repo.tree.read q = none) :
    ∃ p, q = target.place ++ p ∧ (∀ n ∈ p, n.val ≠ ConfigHistory.gitDirName) ∧
      ∃ enumerated, Enumerated node cfg target enumerated ∧
        remoteText p ∉ enumerated.map EnumeratedFile.path := by
  unfold sweepOneTarget at hgone
  cases target with
  | host => exact sweepRunning_removes hfile hgone
  | guest vmid =>
    change (after (node.transport.exec (buildPctStatusCommand vmid) >>= _) s).repo.tree.read q =
      none at hgone
    rcases exec_cases node s (buildPctStatusCommand vmid) with
      ⟨e, t, hexec, hrepo⟩ | ⟨res, t, -, hexec, hrepo⟩
    · rw [after_bind_of_error hexec, hrepo] at hgone
      rw [hgone] at hfile
      cases hfile
    · rw [after_bind_of_ok hexec] at hgone
      rw [← hrepo] at hfile
      split at hgone
      · rw [show (after (pure _ : Action SweepTargetResult) t) = t from rfl] at hgone
        rw [hgone] at hfile
        cases hfile
      · exact sweepRunning_removes hfile hgone

end

/-! ## Runs -/

/-- A sweep of a target, while its files are those of `remote`. -/
structure Sweep where
  target : SweepTarget
  cfg : HistoryConfig
  node : Node
  remote : Remote
  answers : FindAnswers node remote (watchPathsFor cfg target) target.vmid

inductive Event
  | mutation (node : Node) (committed : Bool) (target : BackupTarget) (content : Bytes)
  | sweep (s : Sweep)

def step (h : ConfigHistory) (repo : Repo) : Event → Repo
  | .mutation node committed target content =>
    (after (recordMutation h node.transport committed target content) ⟨[], repo⟩).repo
  | .sweep s => (after (sweepOneTarget h s.node.transport s.cfg s.target) ⟨[], repo⟩).repo

def run (h : ConfigHistory) (repo : Repo) (events : List Event) : Repo :=
  events.foldl (step h) repo

/-- Where the sweep removes a file from the mirror, there is none on the node. -/
def ForgetsOnlyGone (h : ConfigHistory) (repo : Repo) (s : Sweep) : Prop :=
  ∀ q, (repo.tree.read q).isSome → (step h repo (.sweep s)).tree.read q = none →
    ∃ p, q = s.target.place ++ p ∧ s.remote.fileAt (remoteText p) = none

/-- What the mirror shows of the target and the node still has, `find` lists. -/
structure Covers (repo : Repo) (s : Sweep) : Prop where
  plainPaths : ∀ path ∈ watchPathsFor s.cfg s.target, ¬StartsExpression path
  listed : ∀ p, (repo.tree.read (s.target.place ++ p)).isSome →
    (∀ n ∈ p, n.val ≠ ConfigHistory.gitDirName) → (s.remote.fileAt (remoteText p)).isSome →
      s.remote.Listed (watchPathsFor s.cfg s.target) p

theorem Covers.forgetsOnlyGone {h : ConfigHistory} {repo : Repo} {s : Sweep}
    (hcovers : Covers repo s) : ForgetsOnlyGone h repo s := by
  intro q hfile hgone
  obtain ⟨p, rfl, hshown, enumerated, ⟨asked, res, hres, hexit, rfl⟩, hmissing⟩ :=
    sweepOneTarget_removes (s := ⟨[], repo⟩) hfile hgone
  refine ⟨p, rfl, ?_⟩
  rw [s.answers hcovers.plainPaths asked res hres hexit] at hmissing
  cases hthere : s.remote.fileAt (remoteText p) with
  | none => rfl
  | some b =>
    have hlisted := hcovers.listed p hfile hshown (hthere ▸ rfl)
    exact absurd hlisted.mem_findOutput hmissing

/-- The file in this place of the mirror is still there for the sweep's target. -/
def StillThere (q : FilePath) (s : Sweep) : Prop :=
  ∀ p, q = s.target.place ++ p → (s.remote.fileAt (remoteText p)).isSome

theorem run_append (h : ConfigHistory) (repo : Repo) (before after : List Event) :
    run h repo (before ++ after) = run h (run h repo before) after :=
  List.foldl_append

/-- A file stays in the mirror as long as it is on the node. -/
theorem run_keeps {h : ConfigHistory} {repo : Repo} {events : List Event} {q : FilePath}
    (hcovers : ∀ before s after, events = before ++ .sweep s :: after →
      Covers (run h repo before) s)
    (hthere : ∀ s, .sweep s ∈ events → StillThere q s) (hfile : (repo.tree.read q).isSome) :
    ((run h repo events).tree.read q).isSome := by
  induction events generalizing repo with
  | nil => exact hfile
  | cons e events ih =>
    have hrest : ∀ before s after, events = before ++ .sweep s :: after →
        Covers (run h (step h repo e) before) s := fun before s after heq =>
      hcovers (e :: before) s after (heq ▸ rfl)
    refine ih hrest (fun s hs => hthere s (List.mem_cons_of_mem e hs)) ?_
    cases e with
    | mutation node committed target content =>
      exact (grows_recordMutation committed target content ⟨[], repo⟩).files q hfile
    | sweep s =>
      have hgone := (hcovers [] s events rfl).forgetsOnlyGone (h := h) q hfile
      by_contra hnone
      obtain ⟨p, hq, hmissing⟩ := hgone (Option.not_isSome_iff_eq_none.mp hnone)
      have hsome := hthere s List.mem_cons_self p hq
      rw [hmissing] at hsome
      cases hsome

def etcName : FileName := ⟨"etc".toList, by decide⟩

def optName : FileName := ⟨"opt".toList, by decide⟩

def motdName : FileName := ⟨"motd".toList, by decide⟩

def motdText : Bytes := Utf8.encode "welcome".toList

/-- A node with one file, `motd`, in one directory. -/
def oneFile (dir : FileName) : Remote where
  tree :=
    { entries := [([dir], .directory), ([dir, motdName], .file motdText)]
      nodup := by
        rw [List.map_cons, List.map_cons, List.map_nil, List.nodup_cons]
        exact ⟨by simp, List.nodup_singleton _⟩
      above := by
        intro e he q hq hne hroot
        have hinit : q ∈ e.1.inits := (List.mem_inits q e.1).mpr hq
        rcases List.mem_cons.mp he with rfl | he
        · simp only [List.inits, List.map_cons, List.map_nil, List.mem_cons, List.not_mem_nil,
            or_false] at hinit
          exact absurd hinit (not_or.mpr ⟨hroot, hne⟩)
        · rw [List.mem_singleton.mp he] at hinit hne
          simp only [List.inits, List.map_cons, List.map_nil, List.mem_cons, List.not_mem_nil,
            or_false] at hinit
          rcases hinit with hinit | rfl | hinit
          · exact absurd hinit hroot
          · exact List.mem_cons_self
          · exact absurd hinit hne
      not_root := by
        rintro e he
        rcases List.mem_cons.mp he with rfl | he
        · exact List.cons_ne_nil _ _
        · rw [List.mem_singleton.mp he]
          exact List.cons_ne_nil _ _ }
  cwd := []

def mirrorOfLab : ConfigHistory where
  enabled := true
  repoDir := [optName]
  sha256 := firstBytes

def labConfig : HistoryConfig where
  hostWatchPaths := ["/etc".toList]
  containerWatchPaths := ["/etc".toList]
  excludePatterns := []
  sweepFileSizeCapBytes := 1048576
  sweepHashBatchSize := 400
  nodeTempDir := "/tmp".toList

/-- The commands of a sweep of `/etc`, and what they print on this node. -/
def labNode (remote : Remote) : Node where
  exec _ command :=
    if command = buildFindEnumCommand ["/etc".toList] none then
      .ok ⟨remote.findOutput ["/etc".toList], [], some 0⟩
    else if some command = buildSha256Command ["/etc/motd".toList] none then
      .ok ⟨hashHex (firstBytes motdText) ++ "  /etc/motd\n".toList, [], some 0⟩
    else .ok ⟨"644 0 0\n".toList, [], some 0⟩
  readFile _ path :=
    match remote.fileAt path with
    | some content => .ok content
    | none => .error "No such file".toList
  writeFile _ _ _ := .ok ()

theorem labNode_find (remote : Remote) (asked : List Request) :
    (labNode remote).exec asked (buildFindEnumCommand ["/etc".toList] none) =
      .ok ⟨remote.findOutput ["/etc".toList], [], some 0⟩ := by
  unfold labNode
  dsimp only
  rw [if_pos rfl]

def sweepOfLab (dir : FileName) : Sweep where
  target := .host
  cfg := labConfig
  node := labNode (oneFile dir)
  remote := oneFile dir
  answers := by
    intro _ asked res hres _
    have hlisted := labNode_find (oneFile dir) asked
    cases hlisted.symm.trans hres
    rfl

def emptyRepo : Repo := ⟨FileTree.empty, []⟩

/-- The file is written, and then the host is swept. -/
def writeThenSweep (dir : FileName) : List Event :=
  [.mutation (labNode (oneFile dir)) true (.onHost (remoteText [dir, motdName])) motdText,
    .sweep (sweepOfLab dir)]

theorem entry_motd (dir : FileName) :
    (oneFile dir).tree.entry [dir, motdName] = some (.file motdText) :=
  (LinkedTree.entry_eq_some_iff (List.cons_ne_nil _ _)).mpr
    (List.mem_cons_of_mem _ List.mem_cons_self)

theorem covers_motd {before after : List Event} {s : Sweep}
    (h : writeThenSweep etcName = before ++ .sweep s :: after) :
    Covers (run mirrorOfLab emptyRepo before) s := by
  obtain ⟨rfl, hs⟩ : before = (writeThenSweep etcName).take 1 ∧ s = sweepOfLab etcName := by
    unfold writeThenSweep at h
    cases before with
    | nil => cases h
    | cons e before =>
      cases before with
      | nil =>
        cases h
        exact ⟨rfl, rfl⟩
      | cons e' before =>
        rw [List.cons_append, List.cons_append] at h
        have hlen := congrArg List.length h
        simp only [List.length_cons, List.length_nil, List.length_append] at hlen
        omega
  subst hs
  refine ⟨by decide, fun p hread _ _ => ?_⟩
  have hfiles : (run mirrorOfLab emptyRepo ((writeThenSweep etcName).take 1)).tree.files =
      [([hostName, etcName, motdName], motdText)] := by decide +kernel
  obtain ⟨b, hb⟩ := Option.isSome_iff_exists.mp hread
  rw [FileTree.read_eq_some_iff, hfiles, List.mem_singleton] at hb
  obtain rfl : p = [etcName, motdName] := (List.cons.inj (Prod.mk.inj hb).1).2
  refine Remote.listed_below (w := [etcName]) (entry_motd etcName) ?_ ⟨[motdName], rfl⟩
    (by decide +kernel)
  exact List.mem_singleton.mpr rfl

end HomelabMcp.History
