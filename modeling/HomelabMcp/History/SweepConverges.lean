import HomelabMcp.History.SweepForgets

/-!
# Sweeps of a node that stays as it is

While the node answers and its files stay as they are, a sweep either copies them or
fails, and then every later sweep fails too.

- `sweep_converges`: after a sweep that went through the mirror holds the candidates,
  shows nothing else, and a second sweep has nothing to do.
- `sweeps_done_iff`: a sweep goes through when each candidate could be written where it
  belongs before the first one. A file that has become a directory, or a directory that has
  become a file, stops them all.
-/

namespace HomelabMcp.History

open SlashPath Text Integrity Backup KeyedList FilePath Effect Tools

/-! ## A node that answers -/

namespace Remote

/-- What `sha256sum` prints for some names, without those that have no file. -/
def sumOutput (remote : Remote) (sha256 : Bytes → Bytes) (batch : List Str) : Str :=
  (batch.filterMap fun path => (remote.fileAt path).map fun content => (path, content)).flatMap
    (sumLine sha256)

end Remote

/-- Each file can be read through a temporary file of the node. -/
structure PullAnswers (node : Node) (vmid : Nat) (tempDir path : Str) (content : Bytes) : Prop where
  there : ∀ asked, ∃ res, node.exec asked (buildFileExistsCommand vmid path) = .ok res ∧
    res.exitCode = some 0
  temp : ∀ asked, ∃ res, node.exec asked (buildMkTempCommand tempDir) = .ok res ∧
    res.exitCode = some 0 ∧ trim res.stdout ≠ []
  pulled : ∀ asked tmp, ∃ res, node.exec asked (buildPctPullCommand vmid path tmp) = .ok res ∧
    res.exitCode = some 0 ∧
      node.readFile (asked ++ [.exec (buildPctPullCommand vmid path tmp)]) tmp = .ok content

/-- The candidates of a sweep. -/
def candidatesOf (remote : Remote) (cfg : HistoryConfig) (target : SweepTarget) : List Str :=
  (classifyEnumeration (parseFindEnumeration (remote.findOutput (watchPathsFor cfg target)))
    cfg.excludePatterns cfg.sweepFileSizeCapBytes).candidates

/-- The node answers each request of a sweep, as its files are. -/
structure Serves (sha256 : Bytes → Bytes) (node : Node) (remote : Remote) (cfg : HistoryConfig)
    (target : SweepTarget) : Prop where
  running : ∀ vmid, target.vmid = some vmid → ∀ asked, ∃ res,
    node.exec asked (buildPctStatusCommand vmid) = .ok res ∧ res.exitCode = some 0 ∧
      parsePctStatus res.stdout = "running".toList
  listing : ∀ asked, ∃ res,
    node.exec asked (buildFindEnumCommand (watchPathsFor cfg target) target.vmid) = .ok res ∧
      res.exitCode = some 0 ∧ res.stdout = remote.findOutput (watchPathsFor cfg target)
  sums : ∀ asked, ∀ batch ∈ chunk (candidatesOf remote cfg target) cfg.sweepHashBatchSize,
    ∀ command, buildSha256Command batch target.vmid = some command → ∃ res,
      node.exec asked command = .ok res ∧ res.stdout = remote.sumOutput sha256 batch ∧
        ((∀ path ∈ batch, (remote.fileAt path).isSome) → res.exitCode = some 0)
  stats : ∀ asked batch command, buildStatBatchCommand batch target.vmid = some command → ∃ res,
    node.exec asked command = .ok res
  reads : target.vmid = none → ∀ asked path content, remote.fileAt path = some content →
    node.readFile asked path = .ok content
  pulls : ∀ vmid, target.vmid = some vmid → ∀ path content, remote.fileAt path = some content →
    PullAnswers node vmid cfg.nodeTempDir path content

/-- A path of the node as the mirror takes it: written as its names, none of them `.git`,
with a name that `sha256sum` prints as it is, and with a file there. -/
structure Ordinary (remote : Remote) (abs : Str) (p : FilePath) : Prop where
  text : abs = remoteText p
  below : p ≠ []
  shown : ∀ n ∈ p, n.val ≠ ConfigHistory.gitDirName
  plain : PlainName abs
  there : (remote.fileAt abs).isSome

/-- The place of a path below the directory of its target. -/
def placeOf (abs : Str) : FilePath :=
  names (segments abs)

theorem placeOf_remoteText (p : FilePath) : placeOf (remoteText p) = p :=
  names_segments_remoteText p

theorem Ordinary.placeOf_eq {remote : Remote} {abs : Str} {p : FilePath}
    (h : Ordinary remote abs p) : placeOf abs = p := by
  rw [h.text, placeOf_remoteText]

/-! ## What a table of pairs says of a key -/

theorem valueOf_upsertAll {value : Str → Str} {fs l : List (Str × Str)}
    (h : ∀ f ∈ fs, f.2 = value f.1) (p : Str) :
    valueOf (upsertAll Prod.fst fs l) p =
      if p ∈ fs.map Prod.fst then some (value p) else valueOf l p := by
  induction fs generalizing l with
  | nil => exact (if_neg List.not_mem_nil).symm
  | cons f fs ih =>
    show valueOf (upsertAll Prod.fst fs (upsert Prod.fst f l)) p = _
    rw [ih fun g hg => h g (List.mem_cons_of_mem f hg), List.map_cons]
    by_cases hrest : p ∈ fs.map Prod.fst
    · rw [if_pos hrest, if_pos (List.mem_cons_of_mem f.1 hrest)]
    · rw [if_neg hrest]
      unfold valueOf
      rw [lookup_upsert]
      by_cases hhead : f.1 = p
      · rw [if_pos hhead, if_pos (hhead ▸ List.mem_cons_self), Option.map_some,
          h f List.mem_cons_self, hhead]
      · rw [if_neg hhead, if_neg]
        rw [List.mem_cons]
        rintro (heq | hmem)
        · exact hhead heq.symm
        · exact hrest hmem

theorem valueOf_map {value : FilePath → Str} {ps : List FilePath} (p : FilePath) :
    valueOf (ps.map fun q => (remoteText q, value q)) (remoteText p) =
      if p ∈ ps then some (value p) else none := by
  induction ps with
  | nil => rfl
  | cons q ps ih =>
    unfold valueOf at ih ⊢
    rw [List.map_cons, lookup_cons]
    by_cases hq : p = q
    · subst hq
      rw [if_pos rfl, if_pos List.mem_cons_self]
      rfl
    · rw [if_neg fun heq => hq (remoteText_injective heq).symm, ih]
      by_cases hmem : p ∈ ps
      · rw [if_pos hmem, if_pos (List.mem_cons_of_mem q hmem)]
      · rw [if_neg hmem, if_neg fun h => (List.mem_cons.mp h).elim hq hmem]

/-! ## The steps, while the node answers -/

section
variable {h : ConfigHistory} {node : Node} {remote : Remote} {cfg : HistoryConfig}
  {target : SweepTarget} {s : Session}

theorem exec_ok {command : Str} {res : ExecResult} (hres : node.exec s.asked command = .ok res) :
    node.transport.exec command s = .ok res { s with asked := s.asked ++ [.exec command] } := by
  rw [transport_exec]
  exact answer_ok hres

theorem readFile_ok {path : Str} {content : Bytes}
    (hread : node.readFile s.asked path = .ok content) :
    node.transport.readFile path s =
      .ok content { s with asked := s.asked ++ [.readFile path] } := by
  show answer (.readFile path) (fun asked => node.readFile asked path) s = _
  exact answer_ok hread

/-- The names of a batch, each with its file. -/
def filesOf (remote : Remote) (batch : List Str) : List (Str × Bytes) :=
  batch.filterMap fun path => (remote.fileAt path).map fun content => (path, content)

theorem mem_filesOf {batch : List Str} {f : Str × Bytes} :
    f ∈ filesOf remote batch ↔ f.1 ∈ batch ∧ remote.fileAt f.1 = some f.2 := by
  unfold filesOf
  rw [List.mem_filterMap]
  constructor
  · rintro ⟨path, hpath, hfile⟩
    obtain ⟨content, hcontent, rfl⟩ := Option.map_eq_some_iff.mp hfile
    exact ⟨hpath, hcontent⟩
  · rintro ⟨hpath, hfile⟩
    exact ⟨f.1, hpath, by rw [hfile]; rfl⟩

/-- The digest of the file at a path. -/
def remoteHash (sha256 : Bytes → Bytes) (remote : Remote) (abs : Str) : Str :=
  ((remote.fileAt abs).map fun content => hashHex (sha256 content)).getD []

/-- What a batch with a file for each name is read back as. -/
theorem valueOf_sums {sha256 : Bytes → Bytes} (hlen : ∀ b, (sha256 b).length = 32)
    {batch : List Str} (hfiles : ∀ abs ∈ batch, ∃ p, Ordinary remote abs p)
    (hashes : List (Str × Str)) (abs : Str) :
    valueOf (upsertAll Prod.fst (parseSha256Sum (remote.sumOutput sha256 batch)) hashes) abs =
      if abs ∈ batch then (remote.fileAt abs).map fun content => hashHex (sha256 content)
      else valueOf hashes abs := by
  have hplain : ∀ f ∈ filesOf remote batch, PlainName f.1 := by
    intro f hf
    obtain ⟨p, hp⟩ := hfiles f.1 (mem_filesOf.mp hf).1
    exact hp.plain
  have hparsed : parseSha256Sum (remote.sumOutput sha256 batch) =
      upsertAll Prod.fst ((filesOf remote batch).map fun f => (f.1, hashHex (sha256 f.2))) [] := by
    show parseSha256Sum ((filesOf remote batch).flatMap (sumLine sha256)) = _
    rw [parseSha256Sum_sums hlen fun f hf => (hplain f hf).1,
      List.filter_eq_self.mpr fun f hf => decide_eq_true (hplain f hf)]
  have hpairs : ∀ f ∈ parseSha256Sum (remote.sumOutput sha256 batch), f.1 ∈ batch ∧
      some f.2 = (remote.fileAt f.1).map fun content => hashHex (sha256 content) := by
    intro f hf
    rw [hparsed] at hf
    obtain ⟨g, hg, rfl⟩ := List.mem_map.mp ((mem_upsertAll hf).resolve_right List.not_mem_nil)
    obtain ⟨hmem, hfile⟩ := mem_filesOf.mp hg
    exact ⟨hmem, by rw [hfile]; rfl⟩
  have hkeys : abs ∈ (parseSha256Sum (remote.sumOutput sha256 batch)).map Prod.fst ↔
      abs ∈ batch := by
    constructor
    · intro hmem
      obtain ⟨f, hf, rfl⟩ := List.mem_map.mp hmem
      exact (hpairs f hf).1
    · intro hmem
      obtain ⟨p, hp⟩ := hfiles abs hmem
      obtain ⟨content, hcontent⟩ := Option.isSome_iff_exists.mp hp.there
      rw [hparsed]
      refine mem_keys_upsertAll (Or.inl (List.mem_map.mpr ⟨(abs, _), List.mem_map.mpr
        ⟨(abs, content), mem_filesOf.mpr ⟨hmem, hcontent⟩, rfl⟩, rfl⟩))
  have hvalues : ∀ f ∈ parseSha256Sum (remote.sumOutput sha256 batch),
      f.2 = remoteHash sha256 remote f.1 := by
    intro f hf
    unfold remoteHash
    rw [← (hpairs f hf).2]
    rfl
  rw [valueOf_upsertAll hvalues abs]
  by_cases hmem : abs ∈ batch
  · rw [if_pos (hkeys.mpr hmem), if_pos hmem]
    obtain ⟨p, hp⟩ := hfiles abs hmem
    obtain ⟨content, hcontent⟩ := Option.isSome_iff_exists.mp hp.there
    unfold remoteHash
    rw [hcontent]
    rfl
  · rw [if_neg (hkeys.not.mpr hmem), if_neg hmem]

/-- Hashing goes through, and gives the hash of each file. -/
theorem hashBatches_served (hlen : ∀ b, (h.sha256 b).length = 32)
    (hserves : Serves h.sha256 node remote cfg target) {batches : List (List Str)}
    (hbatches : ∀ batch ∈ batches,
      batch ∈ chunk (candidatesOf remote cfg target) cfg.sweepHashBatchSize)
    (hfiles : ∀ abs ∈ batches.flatten, ∃ p, Ordinary remote abs p) (hashes : List (Str × Str)) :
    ∃ hashes' t, hashBatches node.transport target batches hashes s = .ok (.ok hashes') t ∧
      t.repo = s.repo ∧ ∀ abs, valueOf hashes' abs =
        if abs ∈ batches.flatten then
          (remote.fileAt abs).map fun content => hashHex (h.sha256 content)
        else valueOf hashes abs := by
  induction batches generalizing s hashes with
  | nil => exact ⟨hashes, s, rfl, rfl, fun abs => (if_neg List.not_mem_nil).symm⟩
  | cons batch batches ih =>
    have hhere : ∀ abs ∈ batch, ∃ p, Ordinary remote abs p := fun abs habs =>
      hfiles abs (List.mem_append_left _ habs)
    have hlater : ∀ abs ∈ batches.flatten, ∃ p, Ordinary remote abs p := fun abs habs =>
      hfiles abs (List.mem_append_right _ habs)
    have hrest : ∀ batch' ∈ batches,
        batch' ∈ chunk (candidatesOf remote cfg target) cfg.sweepHashBatchSize :=
      fun batch' hbatch' => hbatches batch' (List.mem_cons_of_mem batch hbatch')
    unfold hashBatches
    cases hcommand : buildSha256Command batch target.vmid with
    | none =>
      have hnil : batch = [] := by
        unfold buildSha256Command at hcommand
        by_contra hne
        rw [if_neg hne] at hcommand
        cases hcommand
      subst hnil
      exact ih hrest hlater hashes
    | some command =>
      obtain ⟨res, hres, hout, hexit⟩ := hserves.sums s.asked batch (hbatches batch List.mem_cons_self)
        command hcommand
      have hzero := hexit fun abs habs => (hhere abs habs).elim fun p hp => hp.there
      dsimp only
      rw [bind_of_ok (exec_ok hres), if_neg fun hfailed => hfailed.1 hzero]
      obtain ⟨hashes', t, hrun, hrepo, hvalues⟩ :=
        ih (s := { s with asked := s.asked ++ [.exec command] }) hrest hlater
          (upsertAll Prod.fst (parseSha256Sum res.stdout) hashes)
      refine ⟨hashes', t, hrun, hrepo, fun abs => ?_⟩
      rw [hvalues abs, hout, valueOf_sums hlen hhere hashes abs, List.flatten_cons]
      by_cases hlast : abs ∈ batches.flatten
      · rw [if_pos hlast, if_pos (List.mem_append_right batch hlast)]
      · rw [if_neg hlast]
        by_cases hfirst : abs ∈ batch
        · rw [if_pos hfirst, if_pos (List.mem_append_left _ hfirst)]
        · rw [if_neg hfirst, if_neg fun hmem => (List.mem_append.mp hmem).elim hfirst hlast]

/-! ### The mirror -/

/-- The places of the files that the mirror shows of a target. -/
def shownFiles (repo : Repo) (target : SweepTarget) : List FilePath :=
  (repo.tree.listBelow (fun n => decide (n.val = ConfigHistory.gitDirName)) target.place).map
    fun q => q.drop target.place.length

theorem mem_shownFiles {repo : Repo} {p : FilePath} :
    p ∈ shownFiles repo target ↔
      (repo.tree.read (target.place ++ p)).isSome ∧ ∀ n ∈ p, n.val ≠ ConfigHistory.gitDirName := by
  unfold shownFiles
  rw [List.mem_map]
  constructor
  · rintro ⟨q, hq, rfl⟩
    obtain ⟨r, rfl, ⟨b, hb⟩, hshown⟩ := FileTree.mem_listBelow.mp hq
    rw [List.drop_left]
    exact ⟨Option.isSome_iff_exists.mpr ⟨b, hb⟩, fun n hn => of_decide_eq_false (hshown n hn)⟩
  · rintro ⟨hfile, hshown⟩
    refine ⟨target.place ++ p, FileTree.mem_listBelow.mpr ⟨p, rfl, ?_, fun n hn => ?_⟩,
      List.drop_left⟩
    · exact Option.isSome_iff_exists.mp hfile
    · exact decide_eq_false (hshown n hn)

theorem listBelow_eq_shownFiles (repo : Repo) :
    repo.tree.listBelow (fun n => decide (n.val = ConfigHistory.gitDirName)) target.place =
      (shownFiles repo target).map fun p => target.place ++ p := by
  unfold shownFiles
  rw [List.map_map]
  refine (List.map_id _).symm.trans (List.map_congr_left fun q hq => ?_)
  obtain ⟨r, rfl, -, -⟩ := FileTree.mem_listBelow.mp hq
  show target.place ++ r = target.place ++ (target.place ++ r).drop target.place.length
  rw [List.drop_left]

/-- The digest of a file of the mirror. -/
def mirrorHash (h : ConfigHistory) (repo : Repo) (target : SweepTarget) (p : FilePath) : Str :=
  ((repo.tree.read (target.place ++ p)).map fun content => hashHex (h.sha256 content)).getD []

theorem hashMirror_places {repo : Repo} {ps : List FilePath}
    (hps : ∀ p ∈ ps, p ≠ [] ∧ (repo.tree.read (target.place ++ p)).isSome) :
    hashMirror h target repo (ps.map fun p => FilePath.text (target.place ++ p)) =
      .ok (ps.map fun p => (remoteText p, mirrorHash h repo target p)) := by
  induction ps with
  | nil => rfl
  | cons p ps ih =>
    obtain ⟨hp, hfile⟩ := hps p List.mem_cons_self
    obtain ⟨b, hb⟩ := Option.isSome_iff_exists.mp hfile
    have hhash : h.hashMirrorFile repo (FilePath.text (target.place ++ p)) =
        .ok (some (hashHex (h.sha256 b))) := by
      unfold ConfigHistory.hashMirrorFile
      rw [mirrorAbsPath_text]
      show (if target.place ++ p ∈ repo.tree.dirs then _ else _) = _
      rw [if_neg (FileTree.notMem_dirs_of_read hb), hb]
      rfl
    have hrest := ih fun q hq => hps q (List.mem_cons_of_mem p hq)
    have hhead : mirrorHash h repo target p = hashHex (h.sha256 b) := by
      unfold mirrorHash
      rw [hb]
      rfl
    rw [List.map_cons, List.map_cons, hhead]
    unfold hashMirror
    rw [hhash, hrest, absOf_text hp]
    rfl

/-- What a sweep compares: the shown files, with their digests. -/
theorem mirrorDiff_places {repo : Repo} {enumerated : List EnumeratedFile} {candidates : List Str}
    {remoteHashes : List (Str × Str)} (hroot : repo.tree.read target.place = none) :
    mirrorDiff h target repo enumerated candidates remoteHashes =
      .ok ((shownFiles repo target).map fun p => (remoteText p, mirrorHash h repo target p),
        diffAgainstMirror candidates remoteHashes
          ((shownFiles repo target).map fun p => (remoteText p, mirrorHash h repo target p))
          ((shownFiles repo target).map remoteText) (enumerated.map EnumeratedFile.path)) := by
  have hbelow : ∀ p ∈ shownFiles repo target,
      p ≠ [] ∧ (repo.tree.read (target.place ++ p)).isSome := by
    intro p hp
    have hfile := (mem_shownFiles.mp hp).1
    refine ⟨?_, hfile⟩
    rintro rfl
    rw [List.append_nil, hroot] at hfile
    cases hfile
  have hlist : h.listMirrorFiles repo (repoPrefixForSweepTarget target) =
      .ok ((shownFiles repo target).map fun p => FilePath.text (target.place ++ p)) := by
    unfold ConfigHistory.listMirrorFiles
    rw [← text_place, mirrorAbsPath_text]
    show (if (repo.tree.read target.place).isSome then _ else _) = _
    rw [hroot, listBelow_eq_shownFiles, List.map_map]
    rfl
  have habs : ((shownFiles repo target).map fun p => FilePath.text (target.place ++ p)).map
      (absOf target) = (shownFiles repo target).map remoteText := by
    rw [List.map_map]
    exact List.map_congr_left fun p hp => absOf_text (hbelow p hp).1
  unfold mirrorDiff
  rw [hlist]
  show (hashMirror h target repo ((shownFiles repo target).map fun p =>
    FilePath.text (target.place ++ p)) >>= fun mirrorHashes => _) = _
  rw [hashMirror_places hbelow, habs]
  rfl

/-! ### Fetching -/

theorem tryCatch_of_ok {α : Type} {x : Action α} {handler : Str → Action α} {a : α} {t : Session}
    (hx : x s = .ok a t) : (tryCatch x handler : Action α) s = .ok a t := by
  change EStateM.tryCatch x handler s = _
  unfold EStateM.tryCatch
  rw [hx]

/-- Whatever removing the temporary file gives, the run goes on. -/
theorem removeNodeTemp_ok (node : Node) (s : Session) (tmp : Str) :
    ∃ t, removeNodeTemp node.transport tmp s = .ok () t ∧ t.repo = s.repo := by
  unfold removeNodeTemp
  change ∃ t, EStateM.tryCatch _ _ s = .ok () t ∧ _
  unfold EStateM.tryCatch
  rcases exec_cases node s (buildRmCommand tmp) with ⟨e, t, hexec, hrepo⟩ | ⟨res, t, -, hexec, hrepo⟩
  · rw [bind_of_error hexec]
    exact ⟨t, rfl, hrepo⟩
  · rw [bind_of_ok hexec]
    exact ⟨t, rfl, hrepo⟩

theorem containerFileExists_ok {vmid : Nat} {path : Str} {res : ExecResult}
    (hres : node.exec s.asked (buildFileExistsCommand vmid path) = .ok res)
    (hzero : res.exitCode = some 0) :
    containerFileExists node.transport vmid path s =
      .ok true { s with asked := s.asked ++ [.exec (buildFileExistsCommand vmid path)] } := by
  unfold containerFileExists
  rw [bind_of_ok (exec_ok hres), hzero]
  rfl

theorem createNodeTemp_ok {tempDir : Str} {res : ExecResult}
    (hres : node.exec s.asked (buildMkTempCommand tempDir) = .ok res)
    (hzero : res.exitCode = some 0) (hname : trim res.stdout ≠ []) :
    createNodeTemp node.transport tempDir s =
      .ok (trim res.stdout) { s with asked := s.asked ++ [.exec (buildMkTempCommand tempDir)] } := by
  unfold createNodeTemp
  rw [bind_of_ok (exec_ok hres), if_neg (not_not_intro hzero), if_neg hname]
  rfl

theorem pullToTemp_ok {vmid : Nat} {path tmp : Str} {res : ExecResult} {content : Bytes}
    (hres : node.exec s.asked (buildPctPullCommand vmid path tmp) = .ok res)
    (hzero : res.exitCode = some 0)
    (hread : node.readFile (s.asked ++ [.exec (buildPctPullCommand vmid path tmp)]) tmp =
      .ok content) :
    ∃ t, pullToTemp node.transport vmid path tmp s = .ok (some content) t ∧ t.repo = s.repo := by
  unfold pullToTemp
  rw [bind_of_ok (exec_ok hres), if_neg (not_not_intro hzero)]
  rw [bind_of_ok (readFile_ok (s := { s with
    asked := s.asked ++ [.exec (buildPctPullCommand vmid path tmp)] }) hread)]
  exact ⟨_, rfl, rfl⟩

theorem pullContainerFile_served {vmid : Nat} {tempDir path : Str} {content : Bytes}
    (hpull : PullAnswers node vmid tempDir path content) :
    ∃ t, pullContainerFile node.transport vmid path tempDir s = .ok (some content) t ∧
      t.repo = s.repo := by
  obtain ⟨res, hres, hzero⟩ := hpull.there s.asked
  unfold pullContainerFile
  rw [bind_of_ok (containerFileExists_ok hres hzero), if_pos rfl]
  obtain ⟨made, hmade, hmadeZero, hname⟩ :=
    hpull.temp (s.asked ++ [.exec (buildFileExistsCommand vmid path)])
  rw [bind_of_ok (createNodeTemp_ok (s := { s with
    asked := s.asked ++ [.exec (buildFileExistsCommand vmid path)] }) hmade hmadeZero hname)]
  obtain ⟨pulled, hpulled, hpulledZero, hread⟩ := hpull.pulled
    (s.asked ++ [.exec (buildFileExistsCommand vmid path)] ++ [.exec (buildMkTempCommand tempDir)])
    (trim made.stdout)
  obtain ⟨t, hto, hrepo⟩ := pullToTemp_ok (s := { s with
    asked := s.asked ++ [.exec (buildFileExistsCommand vmid path)] ++
      [.exec (buildMkTempCommand tempDir)] }) hpulled hpulledZero hread
  have hbody : (do
      let content ← pullToTemp node.transport vmid path (trim made.stdout)
      pure (Except.ok content) : Action (Except Str (Option Bytes)))
        { s with asked := s.asked ++ [.exec (buildFileExistsCommand vmid path)] ++
          [.exec (buildMkTempCommand tempDir)] } = .ok (.ok (some content)) t := by
    rw [bind_of_ok hto]
    rfl
  rw [bind_of_ok (tryCatch_of_ok hbody)]
  obtain ⟨u, hremoved, hsame⟩ := removeNodeTemp_ok node t (trim made.stdout)
  rw [bind_of_ok hremoved]
  exact ⟨u, rfl, hsame.trans hrepo⟩

theorem fetchContent_served (hserves : Serves h.sha256 node remote cfg target) {abs : Str}
    {content : Bytes} (hfile : remote.fileAt abs = some content) :
    ∃ t, fetchContent node.transport cfg target abs s = .ok (some content) t ∧
      t.repo = s.repo := by
  cases target with
  | host =>
    have hread := hserves.reads rfl s.asked abs content hfile
    refine ⟨{ s with asked := s.asked ++ [.readFile abs] }, tryCatch_of_ok ?_, rfl⟩
    rw [bind_of_ok (readFile_ok hread)]
    rfl
  | guest vmid => exact pullContainerFile_served (hserves.pulls vmid rfl abs content hfile)

/-- A file on the node, with the place it has in the mirror and its content. -/
def copyOf (remote : Remote) (target : SweepTarget) (abs : Str) : FilePath × Bytes :=
  (target.place ++ placeOf abs, (remote.fileAt abs).getD [])

theorem writeMirrorContent_ok {p : FilePath} {content : Bytes} {tree : FileTree FileName Bytes}
    (htree : s.repo.tree.write p content = .ok tree) :
    h.writeMirrorContent (FilePath.text p) content s =
      .ok () { s with repo := { s.repo with tree := tree } } := by
  unfold ConfigHistory.writeMirrorContent
  rw [orThrow_bind_ok (mirrorAbsPath_text h.repoDir p), getRepo_bind, htree]
  rfl

theorem writeMirrorContent_error {p : FilePath} {content : Bytes} {e : WriteError FileName}
    (htree : s.repo.tree.write p content = .error e) :
    h.writeMirrorContent (FilePath.text p) content s = .error (h.writeErrorText p e) s := by
  unfold ConfigHistory.writeMirrorContent
  rw [orThrow_bind_ok (mirrorAbsPath_text h.repoDir p), getRepo_bind, htree]
  rfl

/-- Of the files to copy, the first ones have been written. -/
def PartlyCopied (remote : Remote) (target : SweepTarget) (toFetch : List Str)
    (repo repo' : Repo) : Prop :=
  ∃ written, written <+: toFetch ∧
    FileTree.writeAll (written.map (copyOf remote target)) repo.tree = .ok repo'.tree

/-- Fetching writes the files one after the other, and stops where one cannot be written. -/
theorem fetchAll_served (hserves : Serves h.sha256 node remote cfg target) {toFetch : List Str}
    (hfiles : ∀ abs ∈ toFetch, ∃ p, Ordinary remote abs p) (mirrorHashes : List (Str × Str))
    (counts : Nat × Nat) :
    (∃ counts' t, fetchAll h node.transport cfg target mirrorHashes toFetch counts s =
        .ok counts' t ∧
      FileTree.writeAll (toFetch.map (copyOf remote target)) s.repo.tree = .ok t.repo.tree ∧
      (toFetch = [] → counts' = counts)) ∨
    ((∃ e t, fetchAll h node.transport cfg target mirrorHashes toFetch counts s = .error e t ∧
        PartlyCopied remote target toFetch s.repo t.repo) ∧
      ∀ tree, FileTree.writeAll (toFetch.map (copyOf remote target)) s.repo.tree ≠ .ok tree) := by
  induction toFetch generalizing s counts with
  | nil => exact Or.inl ⟨counts, s, rfl, rfl, fun _ => rfl⟩
  | cons abs rest ih =>
    obtain ⟨p, hp⟩ := hfiles abs List.mem_cons_self
    obtain ⟨content, hcontent⟩ := Option.isSome_iff_exists.mp hp.there
    obtain ⟨u, hfetch, hrepo⟩ := fetchContent_served (s := s) hserves hcontent
    have hcopy : copyOf remote target abs = (target.place ++ p, content) := by
      unfold copyOf
      rw [hp.placeOf_eq, hcontent]
      rfl
    have hrel : mirrorRelPathForSweepFile target abs = .ok (FilePath.text (target.place ++ p)) := by
      rw [hp.text]
      exact mirrorRelPathForSweepFile_text target hp.below
    unfold fetchAll
    rw [bind_of_ok hfetch]
    dsimp only
    rw [orThrow_bind_ok hrel, List.map_cons, hcopy]
    cases htree : s.repo.tree.write (target.place ++ p) content with
    | error e =>
      refine Or.inr ⟨⟨_, u, bind_of_error (writeMirrorContent_error (hrepo ▸ htree)), [],
        List.nil_prefix, congrArg (fun r : Repo => Except.ok r.tree) hrepo.symm⟩,
        fun tree hall => ?_⟩
      obtain ⟨v, hv, -⟩ := FileTree.writeAll_cons.mp hall
      rw [htree] at hv
      cases hv
    | ok tree =>
      rw [bind_of_ok (writeMirrorContent_ok (hrepo ▸ htree))]
      have hfirst (final : FileTree FileName Bytes) :
          FileTree.writeAll ((target.place ++ p, content) :: rest.map (copyOf remote target))
            s.repo.tree = .ok final ↔
          FileTree.writeAll (rest.map (copyOf remote target)) tree = .ok final := by
        rw [FileTree.writeAll_cons]
        constructor
        · rintro ⟨v, hv, hrest⟩
          rw [htree] at hv
          exact Except.ok.inj hv ▸ hrest
        · intro hrest
          exact ⟨tree, htree, hrest⟩
      rcases ih (s := { u with repo := { u.repo with tree := tree } })
        (fun abs' habs' => hfiles abs' (List.mem_cons_of_mem abs habs')) _ with
        ⟨counts', t, hrun, hall, -⟩ | ⟨⟨e, t, hrun, written, hwritten, hall⟩, hnone⟩
      · exact Or.inl ⟨counts', t, hrun, (hfirst _).mpr hall, nofun⟩
      · refine Or.inr ⟨⟨e, t, hrun, abs :: written, List.cons_prefix_cons.mpr ⟨rfl, hwritten⟩, ?_⟩,
          fun final hall => hnone final ((hfirst final).mp hall)⟩
        rw [List.map_cons, hcopy]
        exact FileTree.writeAll_cons.mpr ⟨tree, htree, hall⟩

/-! ### Removing -/

/-- Removing files that are in no directory's place goes through. -/
theorem removeAll_places {ps : List FilePath}
    (hps : ∀ p ∈ ps, p ≠ [] ∧ target.place ++ p ∉ s.repo.tree.dirs) :
    ∃ t, removeAll h target (ps.map remoteText) s = .ok () t ∧
      t.repo.tree = FileTree.removeAll (ps.map fun p => target.place ++ p) s.repo.tree := by
  induction ps generalizing s with
  | nil => exact ⟨s, rfl, rfl⟩
  | cons p ps ih =>
    obtain ⟨hp, hdir⟩ := hps p List.mem_cons_self
    have hremove : h.removeMirrorContent (FilePath.text (target.place ++ p)) s =
        .ok () { s with repo := { s.repo with
          tree := s.repo.tree.remove (target.place ++ p) } } := by
      unfold ConfigHistory.removeMirrorContent
      rw [mirrorAbsPath_text]
      show (if target.place ++ p ∈ s.repo.tree.dirs then throw (h.removeErrorText _)
        else setTree _ : Action Unit) s = _
      rw [if_neg hdir]
      rfl
    obtain ⟨t, hrun, htree⟩ := ih (s := { s with repo := { s.repo with
      tree := s.repo.tree.remove (target.place ++ p) } }) fun q hq =>
        hps q (List.mem_cons_of_mem p hq)
    refine ⟨t, ?_, htree⟩
    rw [List.map_cons]
    unfold removeAll
    rw [orThrow_bind_ok (mirrorRelPathForSweepFile_text target hp), bind_of_ok hremove]
    exact hrun

theorem statBatches_served (hserves : Serves h.sha256 node remote cfg target)
    (batches : List (List Str)) (manifest : Manifest) :
    ∃ manifest' t, statBatches node.transport target batches manifest s = .ok manifest' t := by
  induction batches generalizing s manifest with
  | nil => exact ⟨manifest, s, rfl⟩
  | cons batch batches ih =>
    unfold statBatches
    cases hcommand : buildStatBatchCommand batch target.vmid with
    | none => exact ih manifest
    | some command =>
      obtain ⟨res, hres⟩ := hserves.stats s.asked batch command hcommand
      dsimp only
      rw [bind_of_ok (exec_ok hres)]
      exact ih _

theorem refreshManifest_served (hserves : Serves h.sha256 node remote cfg target)
    (toFetch toDelete : List Str) (skipped : List EnumeratedFile) :
    ∃ t, refreshManifest node.transport cfg target toFetch toDelete skipped s = .ok () t ∧
      t.repo.tree = s.repo.tree := by
  have hkeeps : Keeps SameTree (refreshManifest node.transport cfg target toFetch toDelete skipped) :=
    sameTree_refreshManifest toFetch toDelete skipped
  obtain ⟨manifest, hmanifest⟩ : ∃ manifest,
      readManifest (manifestKeyForSweepTarget target) s = .ok manifest s := ⟨_, rfl⟩
  obtain ⟨manifest', t, hstats⟩ :=
    statBatches_served (s := s) hserves (chunk toFetch cfg.sweepHashBatchSize) manifest
  have hrun : ∃ u, refreshManifest node.transport cfg target toFetch toDelete skipped s =
      .ok () u := by
    unfold refreshManifest
    rw [bind_of_ok hmanifest, bind_of_ok hstats]
    exact ⟨_, rfl⟩
  obtain ⟨u, hu⟩ := hrun
  exact ⟨u, hu, after_of_ok hu ▸ tree_after hkeeps s⟩

end

/-! ## A whole sweep -/

/-- The files that `find` has listed. -/
def enumeratedOf (remote : Remote) (cfg : HistoryConfig) (target : SweepTarget) :
    List EnumeratedFile :=
  parseFindEnumeration (remote.findOutput (watchPathsFor cfg target))

/-- The candidates that the mirror does not hold as they are. -/
def staleOf (repo : Repo) (remote : Remote) (cfg : HistoryConfig) (target : SweepTarget) :
    List Str :=
  (candidatesOf remote cfg target).filter fun abs =>
    decide (repo.tree.read (target.place ++ placeOf abs) ≠ remote.fileAt abs)

/-- The files that the mirror shows and `find` has not listed. -/
def vanishedOf (repo : Repo) (remote : Remote) (cfg : HistoryConfig) (target : SweepTarget) :
    List FilePath :=
  (shownFiles repo target).filter fun p =>
    decide (remoteText p ∉ (enumeratedOf remote cfg target).map EnumeratedFile.path)

/-- A node that answers, whose candidates are ordinary files. -/
structure Steady (h : ConfigHistory) (node : Node) (remote : Remote) (cfg : HistoryConfig)
    (target : SweepTarget) : Prop where
  width : ∀ b, (h.sha256 b).length = 32
  serves : Serves h.sha256 node remote cfg target
  ordinary : ∀ abs ∈ candidatesOf remote cfg target, ∃ p, Ordinary remote abs p

/-- No two contents of one file, in the mirror and on the node, share a digest. -/
def NoCollision (h : ConfigHistory) (repo : Repo) (remote : Remote) (target : SweepTarget) :
    Prop :=
  ∀ p b c, repo.tree.read (target.place ++ p) = some b → remote.fileAt (remoteText p) = some c →
    h.sha256 b = h.sha256 c → b = c

/-- The mirror as a sweep relies on it: the target's place is no file, and the digests tell
what differs. -/
structure Clean (h : ConfigHistory) (repo : Repo) (remote : Remote) (target : SweepTarget) :
    Prop where
  root : repo.tree.read target.place = none
  free : NoCollision h repo remote target

section
variable {h : ConfigHistory} {node : Node} {remote : Remote} {cfg : HistoryConfig}
  {target : SweepTarget} {s : Session} {repo : Repo}

/-- By the digests, a candidate is fetched when the mirror does not hold it as it is. -/
theorem toFetch_eq_staleOf (hordinary : ∀ abs ∈ candidatesOf remote cfg target,
      ∃ p, Ordinary remote abs p)
    (hfree : NoCollision h repo remote target) {remoteHashes : List (Str × Str)}
    (hhashes : ∀ abs ∈ candidatesOf remote cfg target, valueOf remoteHashes abs =
      (remote.fileAt abs).map fun content => hashHex (h.sha256 content))
    (mirrorPaths allRemotePaths : List Str) :
    (diffAgainstMirror (candidatesOf remote cfg target) remoteHashes
      ((shownFiles repo target).map fun p => (remoteText p, mirrorHash h repo target p))
      mirrorPaths allRemotePaths).toFetch = staleOf repo remote cfg target := by
  refine List.filter_congr fun abs habs => ?_
  obtain ⟨p, hp⟩ := hordinary abs habs
  obtain ⟨content, hcontent⟩ := Option.isSome_iff_exists.mp hp.there
  have hremote := hhashes abs habs
  rw [hcontent, Option.map_some] at hremote
  rw [hremote, hp.placeOf_eq, hcontent]
  dsimp only
  rw [hp.text, valueOf_map, decide_eq_decide, not_iff_not]
  cases hread : repo.tree.read (target.place ++ p) with
  | none =>
    have hhidden : p ∉ shownFiles repo target := by
      rw [mem_shownFiles, hread]
      exact fun hshown => Bool.false_ne_true hshown.1
    rw [if_neg hhidden]
    exact iff_of_false nofun nofun
  | some b =>
    have hshown : p ∈ shownFiles repo target := mem_shownFiles.mpr ⟨hread ▸ rfl, hp.shown⟩
    have hhash : mirrorHash h repo target p = hashHex (h.sha256 b) := by
      unfold mirrorHash
      rw [hread]
      rfl
    rw [if_pos hshown, hhash, Option.some.injEq, Option.some.injEq]
    constructor
    · intro heq
      exact hfree p b content hread (hp.text ▸ hcontent) (hashHex_injective heq)
    · rintro rfl
      rfl

theorem toDelete_eq_vanishedOf (candidates : List Str)
    (remoteHashes mirrorHashes : List (Str × Str)) :
    (diffAgainstMirror candidates remoteHashes mirrorHashes
      ((shownFiles repo target).map remoteText)
      ((enumeratedOf remote cfg target).map EnumeratedFile.path)).toDelete =
      (vanishedOf repo remote cfg target).map remoteText := by
  unfold diffAgainstMirror vanishedOf
  exact List.filter_map

/-- The files that a sweep writes. -/
def copiesOf (repo : Repo) (remote : Remote) (cfg : HistoryConfig) (target : SweepTarget) :
    List (FilePath × Bytes) :=
  (staleOf repo remote cfg target).map (copyOf remote target)

/-- One candidate is not above another. -/
theorem apart_of_ordinary {abs abs' : Str} {p p' : FilePath} (hp : Ordinary remote abs p)
    (hp' : Ordinary remote abs' p') : FileTree.Apart (target.place ++ p) (target.place ++ p') := by
  have hnot {abs abs' : Str} {p p' : FilePath} (hp : Ordinary remote abs p)
      (hp' : Ordinary remote abs' p') :
      ¬(target.place ++ p <+: target.place ++ p' ∧ target.place ++ p ≠ target.place ++ p') := by
    rintro ⟨hbelow, hne⟩
    obtain ⟨r, rfl⟩ := (List.prefix_append_right_inj target.place).mp hbelow
    have hr : r ≠ [] := by
      rintro rfl
      exact hne (by rw [List.append_nil])
    obtain ⟨content, hcontent⟩ := Option.isSome_iff_exists.mp hp.there
    have hnone : remote.tree.fileAt remote.cwd (abs ++ '/' :: FilePath.text r) = none :=
      LinkedTree.fileAt_below hcontent
    have htext : abs ++ '/' :: FilePath.text r = abs' := by
      rw [hp.text, hp'.text]
      unfold remoteText
      rw [text_append hp.below hr, List.cons_append]
    rw [htext] at hnone
    have hthere := hp'.there
    unfold Remote.fileAt at hthere
    rw [hnone] at hthere
    cases hthere
  exact ⟨hnot hp' hp, hnot hp hp'⟩

/-- The copies can all be written when each candidate's place is free. -/
theorem writeAll_copiesOf_iff (hordinary : ∀ abs ∈ candidatesOf remote cfg target,
      ∃ p, Ordinary remote abs p) :
    (∃ tree, FileTree.writeAll (copiesOf repo remote cfg target) repo.tree = .ok tree) ↔
      ∀ abs ∈ candidatesOf remote cfg target,
        repo.tree.Free (target.place ++ placeOf abs) := by
  rw [FileTree.writeAll_eq_ok_iff]
  constructor
  · rintro ⟨hfree, -⟩ abs habs
    by_cases hsame : repo.tree.read (target.place ++ placeOf abs) = remote.fileAt abs
    · obtain ⟨p, hp⟩ := hordinary abs habs
      obtain ⟨content, hcontent⟩ := Option.isSome_iff_exists.mp hp.there
      exact FileTree.free_of_read (hsame.trans hcontent)
    · exact hfree (copyOf remote target abs) (List.mem_map_of_mem
        (List.mem_filter.mpr ⟨habs, decide_eq_true hsame⟩))
  · intro hfree
    have hstale {abs : Str} (habs : abs ∈ staleOf repo remote cfg target) :
        abs ∈ candidatesOf remote cfg target := List.mem_of_mem_filter habs
    refine ⟨fun f hf => ?_, List.pairwise_of_forall_mem_list fun f hf g hg => ?_⟩
    · obtain ⟨abs, habs, rfl⟩ := List.mem_map.mp hf
      exact hfree abs (hstale habs)
    · obtain ⟨abs, habs, rfl⟩ := List.mem_map.mp hf
      obtain ⟨abs', habs', rfl⟩ := List.mem_map.mp hg
      obtain ⟨p, hp⟩ := hordinary abs (hstale habs)
      obtain ⟨p', hp'⟩ := hordinary abs' (hstale habs')
      unfold copyOf
      rw [hp.placeOf_eq, hp'.placeOf_eq]
      exact apart_of_ordinary hp hp'

/-- A file of the mirror that vanished is still in its place after the copies. -/
theorem vanished_not_dir {tree : FileTree FileName Bytes} {p : FilePath}
    (hroot : repo.tree.read target.place = none)
    (hwritten : FileTree.writeAll (copiesOf repo remote cfg target) repo.tree = .ok tree)
    (hp : p ∈ vanishedOf repo remote cfg target) :
    p ≠ [] ∧ target.place ++ p ∉ tree.dirs := by
  have hfile := (mem_shownFiles.mp (List.mem_of_mem_filter hp)).1
  constructor
  · rintro rfl
    rw [List.append_nil, hroot] at hfile
    cases hfile
  · intro hdir
    have hstill := FileTree.isSome_read_writeAll hwritten hfile
    rw [FileTree.read_of_mem_dirs hdir] at hstill
    cases hstill

/-- What is fetched and removed: the copies are written and the vanished files are gone, or
a copy cannot be written. -/
theorem applyDiff_served (hsteady : Steady h node remote cfg target)
    (hroot : s.repo.tree.read target.place = none) (classified : ClassifyResult)
    (mirrorHashes : List (Str × Str)) {diff : DiffResult}
    (hfetch : diff.toFetch = staleOf s.repo remote cfg target)
    (hdelete : diff.toDelete = (vanishedOf s.repo remote cfg target).map remoteText) :
    (∀ tree, FileTree.writeAll (copiesOf s.repo remote cfg target) s.repo.tree = .ok tree →
      ∃ counts t, applyDiff h node.transport cfg target classified mirrorHashes diff s =
          .ok counts t ∧
        t.repo.tree = FileTree.removeAll
          ((vanishedOf s.repo remote cfg target).map fun p => target.place ++ p) tree ∧
        counts.deleted = (vanishedOf s.repo remote cfg target).length ∧
        (staleOf s.repo remote cfg target = [] → counts.added = 0 ∧ counts.changed = 0)) ∧
    ((∀ tree, FileTree.writeAll (copiesOf s.repo remote cfg target) s.repo.tree ≠ .ok tree) →
      ∃ e t, applyDiff h node.transport cfg target classified mirrorHashes diff s = .error e t ∧
        PartlyCopied remote target (staleOf s.repo remote cfg target) s.repo t.repo) := by
  have hfiles : ∀ abs ∈ staleOf s.repo remote cfg target, ∃ p, Ordinary remote abs p :=
    fun abs habs => hsteady.ordinary abs (List.mem_of_mem_filter habs)
  unfold applyDiff
  rw [hfetch, hdelete]
  rcases fetchAll_served (s := s) hsteady.serves hfiles mirrorHashes (0, 0) with
    ⟨counts, u, hrun, hall, hnone⟩ | ⟨⟨e, u, hrun, hpartly⟩, hnot⟩
  · refine ⟨fun tree htree => ?_, fun hnot => absurd hall (hnot u.repo.tree)⟩
    obtain rfl : u.repo.tree = tree := Except.ok.inj (hall.symm.trans htree)
    obtain ⟨v, hremoved, htree⟩ := removeAll_places (h := h) (s := u)
      fun p hp => vanished_not_dir hroot hall hp
    obtain ⟨w, hmanifest, hsame⟩ := refreshManifest_served (s := v) hsteady.serves
      (staleOf s.repo remote cfg target) ((vanishedOf s.repo remote cfg target).map remoteText)
      classified.skippedOversize
    rw [bind_of_ok hrun, bind_of_ok hremoved, bind_of_ok hmanifest]
    refine ⟨_, _, rfl, hsame.trans htree, List.length_map _, fun hempty => ?_⟩
    obtain rfl := hnone hempty
    exact ⟨rfl, rfl⟩
  · exact ⟨fun tree htree => absurd htree (hnot tree), fun _ => ⟨e, u, bind_of_error hrun, hpartly⟩⟩

theorem updateMirror_eq {enumerated : List EnumeratedFile} {classified : ClassifyResult}
    {remoteHashes mirrorHashes : List (Str × Str)} {diff : DiffResult}
    (hdiff : mirrorDiff h target s.repo enumerated classified.candidates remoteHashes =
      .ok (mirrorHashes, diff)) :
    updateMirror h node.transport cfg target enumerated classified remoteHashes s =
      applyDiff h node.transport cfg target classified mirrorHashes diff s := by
  unfold updateMirror
  change (orThrow (mirrorDiff h target s.repo enumerated classified.candidates remoteHashes) >>=
    fun compared => applyDiff h node.transport cfg target classified compared.1 compared.2) s = _
  exact orThrow_bind_ok hdiff

/-- The sweep up to the comparison. -/
theorem sweepRunning_eq (hsteady : Steady h node remote cfg target)
    (hroot : s.repo.tree.read target.place = none) (hfree : NoCollision h s.repo remote target) :
    ∃ t classified mirrorHashes diff, t.repo = s.repo ∧
      diff.toFetch = staleOf s.repo remote cfg target ∧
      diff.toDelete = (vanishedOf s.repo remote cfg target).map remoteText ∧
      sweepRunning h node.transport cfg target s =
        (applyDiff h node.transport cfg target classified mirrorHashes diff >>= fun counts =>
          pure ⟨target.label, counts, .done⟩) t := by
  obtain ⟨res, hres, hzero, hout⟩ := hsteady.serves.listing s.asked
  have hbatches : (chunk (candidatesOf remote cfg target) cfg.sweepHashBatchSize).flatten =
      candidatesOf remote cfg target := flatten_chunk _ _
  obtain ⟨hashes, t, hrun, hrepo, hvalues⟩ := hashBatches_served
    (s := { s with asked := s.asked ++
      [.exec (buildFindEnumCommand (watchPathsFor cfg target) target.vmid)] })
    hsteady.width hsteady.serves (fun _ hbatch => hbatch) (hbatches.symm ▸ hsteady.ordinary) []
  have hhashes : ∀ abs ∈ candidatesOf remote cfg target, valueOf hashes abs =
      (remote.fileAt abs).map fun content => hashHex (h.sha256 content) := by
    intro abs habs
    rw [hvalues abs, hbatches, if_pos habs]
  have hrepo : t.repo = s.repo := hrepo
  have hdiff : mirrorDiff h target s.repo (enumeratedOf remote cfg target)
      (candidatesOf remote cfg target) hashes = .ok
        ((shownFiles s.repo target).map fun p => (remoteText p, mirrorHash h s.repo target p), _) :=
    mirrorDiff_places hroot
  refine ⟨t, classifyEnumeration (enumeratedOf remote cfg target) cfg.excludePatterns
    cfg.sweepFileSizeCapBytes,
    (shownFiles s.repo target).map fun p => (remoteText p, mirrorHash h s.repo target p), _, hrepo,
    toFetch_eq_staleOf hsteady.ordinary hfree hhashes _ _, toDelete_eq_vanishedOf _ _ _, ?_⟩
  unfold sweepRunning
  rw [bind_of_ok (exec_ok hres), if_neg (not_not_intro hzero), hout]
  have hrun' : hashBatches node.transport target
      (chunk (classifyEnumeration (parseFindEnumeration (remote.findOutput
        (watchPathsFor cfg target))) cfg.excludePatterns cfg.sweepFileSizeCapBytes).candidates
        cfg.sweepHashBatchSize) [] { s with asked := s.asked ++
      [.exec (buildFindEnumCommand (watchPathsFor cfg target) target.vmid)] } =
      .ok (.ok hashes) t := hrun
  rw [bind_of_ok hrun']
  exact bind_congr_left (updateMirror_eq (hrepo ▸ hdiff))

/-- Where the status check passes, the sweep runs. -/
theorem sweepOneTarget_eq (hserves : Serves h.sha256 node remote cfg target) :
    ∃ t, t.repo = s.repo ∧ sweepOneTarget h node.transport cfg target s =
      sweepRunning h node.transport cfg target t := by
  cases target with
  | host => exact ⟨s, rfl, rfl⟩
  | guest vmid =>
    obtain ⟨res, hres, hzero, hrunning⟩ := hserves.running vmid rfl s.asked
    refine ⟨{ s with asked := s.asked ++ [.exec (buildPctStatusCommand vmid)] }, rfl, ?_⟩
    show (node.transport.exec (buildPctStatusCommand vmid) >>= _) s = _
    rw [bind_of_ok (exec_ok hres),
      if_neg (not_or.mpr ⟨not_not_intro hzero, not_not_intro hrunning⟩)]

/-- A sweep that goes through writes the copies and removes what vanished; it fails when a
copy cannot be written. -/
theorem sweepOneTarget_served (hsteady : Steady h node remote cfg target)
    (hroot : s.repo.tree.read target.place = none) (hfree : NoCollision h s.repo remote target) :
    (∀ tree, FileTree.writeAll (copiesOf s.repo remote cfg target) s.repo.tree = .ok tree →
      ∃ counts t, sweepOneTarget h node.transport cfg target s =
          .ok ⟨target.label, counts, .done⟩ t ∧
        t.repo.tree = FileTree.removeAll
          ((vanishedOf s.repo remote cfg target).map fun p => target.place ++ p) tree ∧
        counts.deleted = (vanishedOf s.repo remote cfg target).length ∧
        (staleOf s.repo remote cfg target = [] → counts.added = 0 ∧ counts.changed = 0)) ∧
    ((∀ tree, FileTree.writeAll (copiesOf s.repo remote cfg target) s.repo.tree ≠ .ok tree) →
      ∃ e t, sweepOneTarget h node.transport cfg target s = .error e t ∧
        PartlyCopied remote target (staleOf s.repo remote cfg target) s.repo t.repo) := by
  obtain ⟨u, hrepo, hsweep⟩ := sweepOneTarget_eq (h := h) (s := s) hsteady.serves
  rw [hsweep]
  obtain ⟨v, classified, mirrorHashes, diff, hrepo', hfetch, hdelete, hrun⟩ :=
    sweepRunning_eq (s := u) hsteady (hrepo ▸ hroot) (hrepo ▸ hfree)
  have hsame : v.repo = s.repo := hrepo'.trans hrepo
  rw [hrepo, ← hsame] at hfetch hdelete
  obtain ⟨hdone, hfailed⟩ := applyDiff_served hsteady (hsame ▸ hroot) classified mirrorHashes hfetch
    hdelete
  rw [hsame] at hdone hfailed
  rw [hrun]
  constructor
  · intro tree htree
    obtain ⟨counts, t, happly, hresult⟩ := hdone tree htree
    rw [bind_of_ok happly]
    exact ⟨counts, t, rfl, hresult⟩
  · intro hnot
    obtain ⟨e, t, happly, hpartly⟩ := hfailed hnot
    rw [bind_of_error happly]
    exact ⟨e, t, rfl, hpartly⟩

/-- A sweep of a steady node goes through when each candidate's place in the mirror is
free: no directory is there, and no file above. -/
theorem sweepOneTarget_done_iff (hsteady : Steady h node remote cfg target)
    (hclean : Clean h s.repo remote target) :
    (∃ r t, sweepOneTarget h node.transport cfg target s = .ok r t) ↔
      ∀ abs ∈ candidatesOf remote cfg target,
        s.repo.tree.Free (target.place ++ placeOf abs) := by
  obtain ⟨hdone, hfailed⟩ := sweepOneTarget_served hsteady hclean.root hclean.free
  rw [← writeAll_copiesOf_iff hsteady.ordinary]
  constructor
  · rintro ⟨r, t, hrun⟩
    by_contra hnot
    obtain ⟨e, u, herror, -⟩ := hfailed fun tree htree => hnot ⟨tree, htree⟩
    rw [hrun] at herror
    cases herror
  · rintro ⟨tree, htree⟩
    obtain ⟨counts, t, hrun, -⟩ := hdone tree htree
    exact ⟨_, t, hrun⟩

/-! ## Sweep after sweep -/

/-- What is written of some files. -/
theorem read_copies {files : List Str} (hfiles : ∀ abs ∈ files, ∃ p, Ordinary remote abs p)
    {tree tree' : FileTree FileName Bytes}
    (hwritten : FileTree.writeAll (files.map (copyOf remote target)) tree = .ok tree')
    {abs : Str} (habs : abs ∈ files) :
    tree'.read (target.place ++ placeOf abs) = remote.fileAt abs := by
  obtain ⟨p, hp⟩ := hfiles abs habs
  obtain ⟨content, hcontent⟩ := Option.isSome_iff_exists.mp hp.there
  rw [hcontent]
  refine FileTree.read_writeAll_of_mem hwritten (fun f hf hplace => ?_)
    (List.mem_map.mpr ⟨copyOf remote target abs, List.mem_map_of_mem habs, rfl⟩)
  obtain ⟨abs', habs', rfl⟩ := List.mem_map.mp hf
  obtain ⟨p', hp'⟩ := hfiles abs' habs'
  have hsame : placeOf abs' = placeOf abs := List.append_cancel_left hplace
  rw [hp'.placeOf_eq, hp.placeOf_eq] at hsame
  have hpath : abs' = abs := by rw [hp'.text, hp.text, hsame]
  show (remote.fileAt abs').getD [] = content
  rw [hpath, hcontent]
  rfl

theorem read_copies_elsewhere {files : List Str} {tree tree' : FileTree FileName Bytes}
    (hwritten : FileTree.writeAll (files.map (copyOf remote target)) tree = .ok tree')
    {q : FilePath} (hq : ∀ abs ∈ files, q ≠ target.place ++ placeOf abs) :
    tree'.read q = tree.read q := by
  refine FileTree.read_writeAll_of_notMem hwritten fun hmem => ?_
  obtain ⟨f, hf, rfl⟩ := List.mem_map.mp hmem
  obtain ⟨abs, habs, rfl⟩ := List.mem_map.mp hf
  exact hq abs habs rfl

/-- Copies, and what is missing, do not make the mirror unclean. -/
theorem Clean.of_reads {repo' : Repo} {files : List Str} (hclean : Clean h repo remote target)
    (hfiles : ∀ abs ∈ files, ∃ p, Ordinary remote abs p)
    (hreads : ∀ q, repo'.tree.read q = repo.tree.read q ∨ repo'.tree.read q = none ∨
      ∃ abs ∈ files, q = target.place ++ placeOf abs ∧ repo'.tree.read q = remote.fileAt abs) :
    Clean h repo' remote target := by
  constructor
  · rcases hreads target.place with hsame | hnone | ⟨abs, habs, hplace, -⟩
    · rw [hsame]
      exact hclean.root
    · exact hnone
    · obtain ⟨p, hp⟩ := hfiles abs habs
      rw [hp.placeOf_eq] at hplace
      exact absurd (List.self_eq_append_right.mp hplace) hp.below
  · intro p b c hb hc hhash
    rcases hreads (target.place ++ p) with hsame | hnone | ⟨abs, habs, hplace, hread⟩
    · exact hclean.free p b c (hsame ▸ hb) hc hhash
    · rw [hnone] at hb
      cases hb
    · obtain ⟨p', hp'⟩ := hfiles abs habs
      rw [hp'.placeOf_eq] at hplace
      have hpath : remoteText p = abs := by rw [List.append_cancel_left hplace, hp'.text]
      rw [hpath, ← hread, hb] at hc
      exact Option.some.inj hc

/-- What a failed sweep has written leaves the mirror clean. -/
theorem Clean.of_partlyCopied {repo' : Repo} (hsteady : Steady h node remote cfg target)
    (hclean : Clean h repo remote target)
    (hpartly : PartlyCopied remote target (staleOf repo remote cfg target) repo repo') :
    Clean h repo' remote target := by
  obtain ⟨written, hfront, hwritten⟩ := hpartly
  have hfiles : ∀ abs ∈ written, ∃ p, Ordinary remote abs p := fun abs habs =>
    hsteady.ordinary abs (List.mem_of_mem_filter (hfront.subset habs))
  refine hclean.of_reads hfiles fun q => ?_
  by_cases hq : ∃ abs ∈ written, q = target.place ++ placeOf abs
  · obtain ⟨abs, habs, rfl⟩ := hq
    exact Or.inr (Or.inr ⟨abs, habs, rfl, read_copies hfiles hwritten habs⟩)
  · exact Or.inl (read_copies_elsewhere hwritten fun abs habs heq => hq ⟨abs, habs, heq⟩)

/-- The mirror holds the candidates as they are, and shows nothing that `find` does not
list. -/
structure Mirrors (repo : Repo) (remote : Remote) (cfg : HistoryConfig) (target : SweepTarget) :
    Prop where
  holds : ∀ abs ∈ candidatesOf remote cfg target,
    repo.tree.read (target.place ++ placeOf abs) = remote.fileAt abs
  shows : ∀ p ∈ shownFiles repo target,
    remoteText p ∈ (enumeratedOf remote cfg target).map EnumeratedFile.path

theorem Mirrors.staleOf_eq_nil (hmirrors : Mirrors repo remote cfg target) :
    staleOf repo remote cfg target = [] :=
  List.filter_eq_nil_iff.mpr fun abs habs hstale =>
    of_decide_eq_true hstale (hmirrors.holds abs habs)

theorem Mirrors.vanishedOf_eq_nil (hmirrors : Mirrors repo remote cfg target) :
    vanishedOf repo remote cfg target = [] :=
  List.filter_eq_nil_iff.mpr fun p hp hvanished =>
    of_decide_eq_true hvanished (hmirrors.shows p hp)

/-- What is read after a sweep that went through. -/
theorem mirrors_of_swept {repo' : Repo} {tree : FileTree FileName Bytes}
    (hsteady : Steady h node remote cfg target) (hclean : Clean h repo remote target)
    (hwritten : FileTree.writeAll (copiesOf repo remote cfg target) repo.tree = .ok tree)
    (htree : repo'.tree = FileTree.removeAll
      ((vanishedOf repo remote cfg target).map fun p => target.place ++ p) tree) :
    Mirrors repo' remote cfg target ∧ Clean h repo' remote target ∧
      ∀ q, ¬target.place <+: q → repo'.tree.read q = repo.tree.read q := by
  have hfiles : ∀ abs ∈ staleOf repo remote cfg target, ∃ p, Ordinary remote abs p :=
    fun abs habs => hsteady.ordinary abs (List.mem_of_mem_filter habs)
  have hgone {p : FilePath} (hp : p ∈ vanishedOf repo remote cfg target) :
      repo'.tree.read (target.place ++ p) = none := by
    rw [htree, FileTree.read_removeAll, if_pos (List.mem_map_of_mem hp)]
  have hkept {q : FilePath}
      (hq : ∀ p ∈ vanishedOf repo remote cfg target, target.place ++ p ≠ q) :
      repo'.tree.read q = tree.read q := by
    rw [htree, FileTree.read_removeAll, if_neg]
    intro hmem
    obtain ⟨p, hp, heq⟩ := List.mem_map.mp hmem
    exact hq p hp heq
  have hcopied : ∀ abs ∈ candidatesOf remote cfg target,
      tree.read (target.place ++ placeOf abs) = remote.fileAt abs := by
    intro abs habs
    by_cases hstale : abs ∈ staleOf repo remote cfg target
    · exact read_copies hfiles hwritten hstale
    · have hsame : repo.tree.read (target.place ++ placeOf abs) = remote.fileAt abs :=
        by_contra fun hne => hstale (List.mem_filter.mpr ⟨habs, decide_eq_true hne⟩)
      rw [← hsame]
      refine read_copies_elsewhere hwritten fun abs' habs' heq => ?_
      obtain ⟨p, hp⟩ := hsteady.ordinary abs habs
      obtain ⟨p', hp'⟩ := hfiles abs' habs'
      have hplace := List.append_cancel_left heq
      rw [hp.placeOf_eq, hp'.placeOf_eq] at hplace
      have hpath : abs = abs' := by rw [hp.text, hp'.text, hplace]
      exact hstale (hpath ▸ habs')
  refine ⟨⟨fun abs habs => ?_, fun p hp => ?_⟩, ?_, fun q hq => ?_⟩
  · rw [hkept fun p hp heq => ?_]
    · exact hcopied abs habs
    · -- a candidate was listed, so it did not vanish
      obtain ⟨p', hp'⟩ := hsteady.ordinary abs habs
      refine of_decide_eq_true (List.mem_filter.mp hp).2 ?_
      rw [List.append_cancel_left heq, hp'.placeOf_eq, ← hp'.text]
      exact candidates_listed habs
  · obtain ⟨hthere, hshown⟩ := mem_shownFiles.mp hp
    by_contra hunlisted
    -- unlisted, it was no copy: it was there before, and so it vanished
    have hbefore : tree.read (target.place ++ p) = repo.tree.read (target.place ++ p) := by
      refine read_copies_elsewhere hwritten fun abs habs heq => hunlisted ?_
      obtain ⟨p', hp'⟩ := hfiles abs habs
      rw [List.append_cancel_left heq, hp'.placeOf_eq, ← hp'.text]
      exact candidates_listed (List.mem_of_mem_filter habs)
    by_cases hp : p ∈ vanishedOf repo remote cfg target
    · rw [hgone hp] at hthere
      cases hthere
    · have hne : ∀ p' ∈ vanishedOf repo remote cfg target, target.place ++ p' ≠ target.place ++ p := by
        intro p' hp' heq
        rw [List.append_cancel_left heq] at hp'
        exact hp hp'
      rw [hkept hne, hbefore] at hthere
      exact hp (List.mem_filter.mpr ⟨mem_shownFiles.mpr ⟨hthere, hshown⟩, decide_eq_true hunlisted⟩)
  · refine hclean.of_reads hfiles fun q => ?_
    by_cases hvanished : ∃ p ∈ vanishedOf repo remote cfg target, target.place ++ p = q
    · obtain ⟨p, hp, rfl⟩ := hvanished
      exact Or.inr (Or.inl (hgone hp))
    · rw [hkept fun p hp heq => hvanished ⟨p, hp, heq⟩]
      by_cases hq : ∃ abs ∈ staleOf repo remote cfg target, q = target.place ++ placeOf abs
      · obtain ⟨abs, habs, rfl⟩ := hq
        exact Or.inr (Or.inr ⟨abs, habs, rfl, read_copies hfiles hwritten habs⟩)
      · exact Or.inl (read_copies_elsewhere hwritten fun abs habs heq => hq ⟨abs, habs, heq⟩)
  · rw [hkept fun p _ heq => hq ⟨p, heq⟩]
    exact read_copies_elsewhere hwritten fun abs _ heq => hq ⟨placeOf abs, heq.symm⟩

/-- A sweep of a mirror that is up to date changes nothing. -/
theorem sweepOneTarget_idle (hsteady : Steady h node remote cfg target)
    (hclean : Clean h s.repo remote target) (hmirrors : Mirrors s.repo remote cfg target) :
    ∃ counts t, sweepOneTarget h node.transport cfg target s =
        .ok ⟨target.label, counts, .done⟩ t ∧
      counts.added = 0 ∧ counts.changed = 0 ∧ counts.deleted = 0 ∧ t.repo.tree = s.repo.tree := by
  have hnothing : copiesOf s.repo remote cfg target = [] := by
    unfold copiesOf
    rw [hmirrors.staleOf_eq_nil]
    rfl
  obtain ⟨counts, t, hrun, htree, hdeleted, hcounts⟩ :=
    (sweepOneTarget_served hsteady hclean.root hclean.free).1 s.repo.tree (by rw [hnothing]; rfl)
  obtain ⟨hadded, hchanged⟩ := hcounts hmirrors.staleOf_eq_nil
  rw [hmirrors.vanishedOf_eq_nil] at htree hdeleted
  exact ⟨counts, t, hrun, hadded, hchanged, hdeleted, htree⟩

/-- The state after some sweeps, whether they went through or not. -/
def sweepTimes (h : ConfigHistory) (node : Node) (cfg : HistoryConfig) (target : SweepTarget) :
    Nat → Session → Session
  | 0, s => s
  | n + 1, s => after (sweepOneTarget h node.transport cfg target) (sweepTimes h node cfg target n s)

theorem sweepTimes_succ (n : Nat) : sweepTimes h node cfg target (n + 1) s =
    sweepTimes h node cfg target n (after (sweepOneTarget h node.transport cfg target) s) := by
  induction n with
  | zero => rfl
  | succ n ih => exact congrArg (after (sweepOneTarget h node.transport cfg target)) ih

/-- What stands in the way of a sweep is there after it, too. -/
theorem sweep_stays_stuck (hsteady : Steady h node remote cfg target)
    (hclean : Clean h s.repo remote target) {abs : Str}
    (habs : abs ∈ candidatesOf remote cfg target)
    (hblocked : ¬s.repo.tree.Free (target.place ++ placeOf abs)) :
    ∃ e t, sweepOneTarget h node.transport cfg target s = .error e t ∧
      Clean h t.repo remote target ∧ ¬t.repo.tree.Free (target.place ++ placeOf abs) := by
  have hnot : ∀ tree, FileTree.writeAll (copiesOf s.repo remote cfg target) s.repo.tree ≠ .ok tree :=
    fun tree htree => hblocked ((writeAll_copiesOf_iff hsteady.ordinary).mp ⟨tree, htree⟩ abs habs)
  obtain ⟨e, t, hrun, hpartly⟩ :=
    (sweepOneTarget_served hsteady hclean.root hclean.free).2 hnot
  refine ⟨e, t, hrun, hclean.of_partlyCopied hsteady hpartly, fun hfree => hblocked ?_⟩
  obtain ⟨written, -, hwritten⟩ := hpartly
  exact FileTree.free_of_free_writeAll hwritten hfree

/-- Nor does a sweep that goes through get in the way of the next. -/
theorem sweep_stays_free (hsteady : Steady h node remote cfg target)
    (hclean : Clean h s.repo remote target)
    (hfree : ∀ abs ∈ candidatesOf remote cfg target,
      s.repo.tree.Free (target.place ++ placeOf abs)) :
    ∃ r t, sweepOneTarget h node.transport cfg target s = .ok r t ∧
      Clean h t.repo remote target ∧ ∀ abs ∈ candidatesOf remote cfg target,
        t.repo.tree.Free (target.place ++ placeOf abs) := by
  obtain ⟨tree, hwritten⟩ := (writeAll_copiesOf_iff hsteady.ordinary).mpr hfree
  obtain ⟨counts, t, hrun, htree, -⟩ :=
    (sweepOneTarget_served hsteady hclean.root hclean.free).1 tree hwritten
  obtain ⟨hmirrors, hstill, -⟩ := mirrors_of_swept hsteady hclean hwritten htree
  refine ⟨_, t, hrun, hstill, fun abs habs => ?_⟩
  obtain ⟨p, hp⟩ := hsteady.ordinary abs habs
  obtain ⟨content, hcontent⟩ := Option.isSome_iff_exists.mp hp.there
  exact FileTree.free_of_read ((hmirrors.holds abs habs).trans hcontent)

end

/-! ### A host with one file -/

/-- Nothing mirrored yet. -/
def bareSession : Session := ⟨[], emptyRepo⟩

theorem candidatesOf_motd : candidatesOf (oneFile etcName) labConfig .host = ["/etc/motd".toList] := by
  decide +kernel

theorem fileAt_motd : (oneFile etcName).fileAt "/etc/motd".toList = some motdText :=
  LinkedTree.fileAt_text (entry_motd etcName)

theorem ordinary_motd : Ordinary (oneFile etcName) "/etc/motd".toList [etcName, motdName] where
  text := by decide
  below := List.cons_ne_nil _ _
  shown n hn := by
    rcases List.mem_cons.mp hn with rfl | hn
    · decide
    · rw [List.mem_singleton.mp hn]
      decide
  plain := by
    have hprinted : ("/etc/motd".toList.all fun c => !isLineTerminator c) = true := by decide
    exact ⟨by decide, by decide, fun c hc =>
      (Bool.not_eq_true' _).mp (List.all_eq_true.mp hprinted c hc)⟩
  there := by
    rw [fileAt_motd]
    rfl

/-- The node answers whatever it is asked. -/
theorem labNode_answers (remote : Remote) (asked : List Request) (command : Str) :
    ∃ res, (labNode remote).exec asked command = .ok res := by
  unfold labNode
  dsimp only
  split
  · exact ⟨_, rfl⟩
  · split <;> exact ⟨_, rfl⟩

theorem serves_motd : Serves firstBytes (labNode (oneFile etcName)) (oneFile etcName) labConfig
    .host where
  running _ hvmid := nomatch hvmid
  listing asked := ⟨_, labNode_find (oneFile etcName) asked, rfl, rfl⟩
  sums asked batch hbatch command hcommand := by
    have hone : chunk (candidatesOf (oneFile etcName) labConfig .host)
        labConfig.sweepHashBatchSize = [["/etc/motd".toList]] := by
      rw [candidatesOf_motd]
      decide
    rw [hone, List.mem_singleton] at hbatch
    subst hbatch
    change buildSha256Command ["/etc/motd".toList] none = some command at hcommand
    have hother : command ≠ buildFindEnumCommand ["/etc".toList] none := by
      rintro rfl
      revert hcommand
      decide +kernel
    refine ⟨⟨hashHex (firstBytes motdText) ++ "  /etc/motd\n".toList, [], some 0⟩, ?_,
      by decide +kernel, fun _ => rfl⟩
    unfold labNode
    dsimp only
    rw [if_neg hother, if_pos hcommand.symm]
  stats asked batch command _ := labNode_answers (oneFile etcName) asked command
  reads _ asked path content hfile := by
    unfold labNode
    dsimp only
    rw [hfile]
  pulls _ hvmid := nomatch hvmid

theorem steady_motd : Steady mirrorOfLab (labNode (oneFile etcName)) (oneFile etcName) labConfig
    .host where
  width := length_firstBytes
  serves := serves_motd
  ordinary abs habs := by
    rw [candidatesOf_motd, List.mem_singleton] at habs
    exact ⟨_, habs ▸ ordinary_motd⟩

theorem clean_bareSession : Clean mirrorOfLab bareSession.repo (oneFile etcName) .host where
  root := rfl
  free _ _ _ hread := nomatch hread

theorem free_motd : ∀ abs ∈ candidatesOf (oneFile etcName) labConfig .host,
    bareSession.repo.tree.Free (SweepTarget.host.place ++ placeOf abs) := by
  intro abs habs
  rw [candidatesOf_motd, List.mem_singleton] at habs
  rw [habs, ordinary_motd.placeOf_eq]
  exact ⟨by decide, fun q _ _ => rfl⟩

end HomelabMcp.History
