import HomelabMcp.Integrity.ForestShape

/-!
# Assembling the forest (forest.ts)

The transport calls of one pass over the node give a `Reading` for each source;
everything after that is a pure function of the readings and of the baseline
rows that stand in for stopped containers.

- `computeForestNodes_readings`: a pass that succeeds assembles its readings.
- `assembleForest_merkle`: readings of trees, over a Merkle baseline, give a
  Merkle tree.
-/

namespace HomelabMcp.Integrity

open SlashPath SortKey Text Effect

/-- What the engine is constructed with, besides the rows, the log and the node:
the digest, the store implementation, and the configuration. -/
structure Env where
  sha256 : Bytes → Bytes
  impl : StoreImpl
  cfg : Config

def Env.under (E : Env) : Str → Str → Bool :=
  E.impl.under

/-! ## Reading the node -/

/-- What one source answered in one pass: its enumeration and the digests it
produced, or nothing when it is not available. -/
structure Reading where
  source : SubtreeSource
  live : Option (List EnumeratedEntry × List (Str × Str))

def runningState : Str := "running".toList

def SubtreeSource.vmid : SubtreeSource → Option Nat
  | .host => none
  | .container vmid => some vmid

/-- `available()` (forest.ts:146, 163). -/
def available (w : World) : SubtreeSource → Wire Bool
  | .host => pure true
  | .container vmid => do
    let st ← w.run (buildPctStatusCommand vmid)
    pure (decide (st.exitCode = some 0 ∧ parsePctStatus st.stdout = runningState))

def enumCommand (cfg : Config) : SubtreeSource → Str
  | .host => buildForestEnumCommand cfg.hostWatchPaths none
  | .container vmid => buildForestEnumCommand cfg.containerWatchPaths (some vmid)

/-- `"exit " + res.exitCode`. -/
def exitText (code : Option Int) : Str :=
  "exit ".toList ++ (code.map signedNumeral).getD "null".toList

def enumerateFailed (src : SubtreeSource) (res : ExecResult) : Str :=
  src.pathPrefix ++ " enumerate failed: ".toList ++
    (if trim res.stderr = [] then exitText res.exitCode else trim res.stderr)

/-- forest.ts:191. -/
def applyExcludes (entries : List EnumeratedEntry) (excludePatterns : List Str) :
    List EnumeratedEntry :=
  if excludePatterns = [] then entries
  else entries.filter fun e => decide (e.kind = .dir) || !matchesAnyGlob e.nodePath excludePatterns

/-- `enumerate()` (forest.ts:147, 167). -/
def enumerate (w : World) (cfg : Config) (src : SubtreeSource) : Wire (List EnumeratedEntry) := do
  let res ← w.run (enumCommand cfg src)
  if res.exitCode ≠ some 0 ∧ trim res.stdout = [] then throw (enumerateFailed src res)
  else pure (applyExcludes (parseForestEnumeration res.stdout) cfg.excludePatterns)

/-- forest.ts:178. -/
def hashViaSha256 (w : World) (nodePaths : List Str) (vmid : Option Nat) :
    Wire (List (Str × Str)) :=
  match buildSha256Command nodePaths vmid with
  | none => pure []
  | some cmd => do
    let res ← w.run cmd
    pure (parseSha256Sum res.stdout)

def isConfigFile (cfg : Config) (src : SubtreeSource) (forestPath : Str) : Bool :=
  matchesAnyGlob (toNodePath src.pathPrefix forestPath) cfg.configFileGlobs

/-- The files whose content a level wants (forest.ts:69). -/
def wantFiles (cfg : Config) (level : Level) (src : SubtreeSource) (entries : List RawEntry) :
    List Str :=
  (entries.filter fun e => decide (e.kind = .file ∧ e.state = .present) &&
    (decide (level = .l3) || isConfigFile cfg src e.path)).map fun e =>
      toNodePath src.pathPrefix e.path

/-- The digests a level needs (forest.ts:68). -/
def readHashes (w : World) (cfg : Config) (level : Level) (src : SubtreeSource)
    (enumerated : List EnumeratedEntry) : Wire (List (Str × Str)) :=
  if level = .l1 then pure []
  else hashViaSha256 w (wantFiles cfg level src (synthesizeEntries src enumerated)) src.vmid

/-- What an available source answers (forest.ts:62). -/
def readLive (w : World) (cfg : Config) (level : Level) (src : SubtreeSource) : Wire Reading := do
  let enumerated ← enumerate w cfg src
  let hashes ← readHashes w cfg level src enumerated
  pure ⟨src, some (enumerated, hashes)⟩

/-- The transport calls that one source costs a pass (forest.ts:56). -/
def readSource (w : World) (cfg : Config) (level : Level) (src : SubtreeSource) : Wire Reading := do
  let up ← available w src
  if up then readLive w cfg level src else pure ⟨src, none⟩

def readSources (w : World) (cfg : Config) (level : Level) : List SubtreeSource → Wire (List Reading)
  | [] => pure []
  | src :: srcs => do
    let r ← readSource w cfg level src
    let rs ← readSources w cfg level srcs
    pure (r :: rs)

/-! ## Assembling what was read -/

/-- A stopped guest: its last rows, with the root marked (forest.ts:90). -/
def freezeSubtree (sha256 : Bytes → Bytes) (src : SubtreeSource) (baseline : List StoredNode) :
    List StoredNode :=
  if baseline = [] then
    [{ path := src.pathPrefix
       hash := unreadableHex sha256
       state := .unavailable
       mtime := none
       parentPath := some (parentForestPath src.pathPrefix)
       childNames := some []
       rooted := src.pathPrefix_rooted
       parent_eq := (if_neg src.pathPrefix_ne_nil).symm }]
  else baseline.map fun n =>
    if n.path = src.pathPrefix then { n with state := .unavailable } else n

/-- The content digest found for a forest path (forest.ts:74). -/
def contentHash (src : SubtreeSource) (level : Level) (hashes : List (Str × Str))
    (forestPath : Str) : Option Str :=
  if level = .l1 then none
  else (KeyedList.lookup Prod.fst (toNodePath src.pathPrefix forestPath) hashes).map Prod.snd

/-- The rows of one source. -/
def subtreeOf (E : Env) (level : Level) (frozenBaseline : Str → List StoredNode) (r : Reading) :
    List StoredNode :=
  match r.live with
  | none => freezeSubtree E.sha256 r.source (frozenBaseline r.source.pathPrefix)
  | some (enumerated, hashes) =>
    assembleSubtree E.sha256 level (contentHash r.source level hashes) r.source.pathPrefix
      (isConfigFile E.cfg r.source) (synthesizeEntries r.source enumerated)

/-- forest.ts:52, after the transport calls. -/
def assembleForest (E : Env) (level : Level) (frozenBaseline : Str → List StoredNode)
    (readings : List Reading) : List StoredNode :=
  let all := readings.flatMap (subtreeOf E level frozenBaseline)
  all ++ foldForestRoots E.sha256 all

/-- The host and every container (integrityEngine.ts:147). -/
def buildSources (w : World) : Wire (List SubtreeSource) := do
  let res ← w.run pctListCommand
  pure (.host :: if res.exitCode = some 0 then
    (parsePctList res.stdout).map fun c => .container c.vmid else [])

/-- integrityEngine.ts:158. -/
def computeForestNodes (E : Env) (w : World) (store : Store) (level : Level) :
    Wire (List StoredNode) := do
  let sources ← buildSources w
  let readings ← readSources w E.cfg level sources
  pure (assembleForest E level (store.allUnder E.under .baseline level) readings)

/-! ## A host that answers from its files -/

/-- A file or a directory of a host: its modification time as `find` prints it,
and for a file the digest of its bytes. -/
structure FsEntry where
  kind : EntryKind
  mtime : Str
  path : Str
  digest : Str

/-- `find -printf '%y\t%T@\t%p\n'`. -/
def FsEntry.enumLine (e : FsEntry) : Str :=
  (match e.kind with
    | .dir => 'd'
    | .file => 'f') :: tab :: e.mtime ++ tab :: e.path ++ [newline]

def FsEntry.sumLine (e : FsEntry) : Str :=
  e.digest ++ "  ".toList ++ e.path ++ [newline]

/-- The files a `sha256sum` command names. -/
def FsEntry.askedFor (cmd : Str) (e : FsEntry) : Bool :=
  decide (e.kind = .file) && cmd.tails.any (shQuote e.path).isPrefixOf

/-- A host without containers, whose files stay as they are. -/
def World.ofHost (cfg : Config) (entries : List FsEntry) : World where
  exec _ cmd := .ok <|
    if cmd = pctListCommand then ⟨"VMID Status Lock Name".toList, [], some 0⟩
    else if cmd = enumCommand cfg .host then ⟨entries.flatMap (·.enumLine), [], some 0⟩
    else if "sha256sum -- ".toList.isPrefixOf cmd then
      ⟨(entries.filter (FsEntry.askedFor cmd)).flatMap (·.sumLine), [], some 0⟩
    else ⟨[], "command not found".toList, some 127⟩
  uuid := numeral
  now := numeral

/-- A node that changes at the `n`-th command of a run. -/
def World.changingAt (n : Nat) (before after : World) : World where
  exec k cmd := if k < n then before.exec k cmd else after.exec k cmd
  uuid := before.uuid
  now := before.now

/-- The defaults over the in-memory store, with a digest that is collision-free
and can be evaluated. -/
def Env.sample : Env := ⟨Digest.lengthPrefixed, .memory, .default⟩

def FsEntry.dir (path : String) : FsEntry :=
  ⟨.dir, "1.0".toList, path.toList, []⟩

/-- A file by its path, its time and one hexadecimal digit of its digest. -/
def FsEntry.file (path mtime : String) (digit : Char) : FsEntry :=
  ⟨.file, mtime.toList, path.toList, List.replicate 64 digit⟩

/-- A file by its bytes, digested by the sample digest. -/
def FsEntry.ofBytes (path mtime : String) (content : Bytes) : FsEntry :=
  ⟨.file, mtime.toList, path.toList, hashHex (Digest.lengthPrefixed content)⟩

def World.ofFiles (entries : List FsEntry) : World :=
  .ofHost .default entries

/-! ## What a pass reads -/

/-- The node's answers describe directory trees, and no container is listed twice. -/
structure World.DescribesTrees (w : World) (cfg : Config) : Prop where
  containers : ∀ k res, w.exec k pctListCommand = .ok res →
    ((parsePctList res.stdout).map (·.vmid)).Nodup
  trees : ∀ k src res, w.exec k (enumCommand cfg src) = .ok res →
    TreeShaped src (parseForestEnumeration res.stdout)

/-- The tools are told apart by the first letter of a command. -/
theorem enumCommand_head (cfg : Config) (src : SubtreeSource) :
    (enumCommand cfg src).head? = some (match src with
      | .host => 'f'
      | .container _ => 'p') := by
  cases src <;> rfl

theorem enumCommand_ne_pctList (cfg : Config) : enumCommand cfg .host ≠ pctListCommand := by
  intro h
  have := (enumCommand_head cfg .host).symm.trans (congrArg List.head? h)
  exact absurd this (by decide)

/-- What is nested in a listing, as a test on its paths. -/
theorem Nested.of_listing {src : SubtreeSource} {listing : List EnumeratedEntry}
    (hnested : ∀ e ∈ listing, ∀ e' ∈ listing,
      toForestPath src.pathPrefix e.nodePath ++ ['/'] <+: toForestPath src.pathPrefix e'.nodePath →
        e.kind = .dir) : Nested src listing := by
  intro e he e' he' hb hne
  have hnil := Below.ne_nil src.pathPrefix_ne_nil (src.toForestPath_below e.absolute)
  exact hnested e he e' he' (((below_iff_slash hnil).mp hb).resolve_left (Ne.symm hne))

/-- The shape of a listing, as a test on its paths. -/
theorem TreeShaped.of_listing {src : SubtreeSource} {listing : List EnumeratedEntry}
    (hnested : ∀ e ∈ listing, ∀ e' ∈ listing,
      toForestPath src.pathPrefix e.nodePath ++ ['/'] <+: toForestPath src.pathPrefix e'.nodePath →
        e.kind = .dir)
    (hnamed : ∀ e ∈ listing, Char.ofNat 0 ∉ e.nodePath) : TreeShaped src listing :=
  ⟨Nested.of_listing hnested, hnamed⟩

/-- A host whose listing is that of a tree describes trees. -/
theorem World.ofHost_describesTrees {cfg : Config} {entries : List FsEntry}
    (hnested : ∀ e ∈ parseForestEnumeration (entries.flatMap (·.enumLine)),
      ∀ e' ∈ parseForestEnumeration (entries.flatMap (·.enumLine)),
        toForestPath hostPrefix e.nodePath ++ ['/'] <+: toForestPath hostPrefix e'.nodePath →
          e.kind = .dir)
    (hnamed : ∀ e ∈ parseForestEnumeration (entries.flatMap (·.enumLine)),
      Char.ofNat 0 ∉ e.nodePath) : (World.ofHost cfg entries).DescribesTrees cfg := by
  have hsilent : ∀ src : SubtreeSource, TreeShaped src [] := fun src => ⟨by simp, by simp⟩
  refine ⟨fun k res h => ?_, fun k src res h => ?_⟩
  · have hres : res = ⟨"VMID Status Lock Name".toList, [], some 0⟩ :=
      (Except.ok.inj (h.symm.trans (congrArg Except.ok (if_pos rfl))))
    rw [hres]
    decide +kernel
  · have hres := (Except.ok.inj h).symm
    cases src with
    | host =>
      rw [if_neg (enumCommand_ne_pctList cfg), if_pos rfl] at hres
      rw [hres]
      exact TreeShaped.of_listing hnested hnamed
    | container v =>
      -- a command for a container is none that this host answers
      have hhead := enumCommand_head cfg (.container v)
      have hhost : enumCommand cfg (.container v) ≠ enumCommand cfg .host := fun heq => by
        rw [heq, enumCommand_head] at hhead
        have : 'f' = 'p' := Option.some.inj hhead
        exact absurd this (by decide)
      have hsum : "sha256sum -- ".toList.isPrefixOf (enumCommand cfg (.container v)) = false := rfl
      rw [if_neg hhost, hsum] at hres
      split at hres
      · rw [hres]
        exact hsilent _
      · rw [hres]
        exact hsilent _

theorem run_eq_ok {w : World} {cmd : Str} {res : ExecResult} {k k' : Nat}
    (h : w.run cmd k = .ok res k') : w.exec k cmd = .ok res := by
  unfold World.run at h
  cases hx : w.exec k cmd with
  | ok r =>
    rw [hx] at h
    injection h with h₁
    rw [h₁]
  | error e => rw [hx] at h; cases h

theorem applyExcludes_subset {entries : List EnumeratedEntry} {patterns : List Str}
    {e : EnumeratedEntry} (h : e ∈ applyExcludes entries patterns) : e ∈ entries := by
  unfold applyExcludes at h
  split at h
  · exact h
  · exact (List.mem_filter.mp h).1

theorem TreeShaped.of_subset {src : SubtreeSource} {l m : List EnumeratedEntry}
    (h : TreeShaped src l) (hsub : ∀ e ∈ m, e ∈ l) : TreeShaped src m :=
  ⟨fun e he e' he' => h.nested e (hsub e he) e' (hsub e' he'), fun e he => h.named e (hsub e he)⟩

/-- What a reading guarantees when the node describes trees. -/
structure Reading.Sound (r : Reading) : Prop where
  tree : ∀ enumerated hashes, r.live = some (enumerated, hashes) → TreeShaped r.source enumerated
  present : ∀ enumerated hashes, r.live = some (enumerated, hashes) →
    ∀ e ∈ enumerated, e.state = .present

theorem enumerate_sound {w : World} {cfg : Config} (hw : w.DescribesTrees cfg)
    {src : SubtreeSource} {k k' : Nat} {entries : List EnumeratedEntry}
    (h : enumerate w cfg src k = .ok entries k') :
    TreeShaped src entries ∧ ∀ e ∈ entries, e.state = .present := by
  unfold enumerate at h
  obtain ⟨res, j, hrun, h⟩ := bind_eq_ok h
  split at h
  · cases h
  · obtain ⟨rfl, -⟩ := pure_eq_ok h
    have hres := run_eq_ok hrun
    exact ⟨(hw.trees _ _ _ hres).of_subset fun e he => applyExcludes_subset he,
      fun e he => parseForestEnumeration_present (applyExcludes_subset he)⟩

theorem readSource_sound {w : World} {cfg : Config} (hw : w.DescribesTrees cfg) {level : Level}
    {src : SubtreeSource} {k k' : Nat} {r : Reading}
    (h : readSource w cfg level src k = .ok r k') : r.source = src ∧ r.Sound := by
  unfold readSource at h
  obtain ⟨up, j, -, h⟩ := bind_eq_ok h
  split at h
  · unfold readLive at h
    obtain ⟨enumerated, j', henum, h⟩ := bind_eq_ok h
    obtain ⟨hashes, j'', -, h⟩ := bind_eq_ok h
    obtain ⟨rfl, -⟩ := pure_eq_ok h
    obtain ⟨htree, hpresent⟩ := enumerate_sound hw henum
    refine ⟨rfl, fun en hs heq => ?_, fun en hs heq => ?_⟩
    · obtain ⟨rfl, rfl⟩ := Prod.mk.inj (Option.some.inj heq)
      exact htree
    · obtain ⟨rfl, rfl⟩ := Prod.mk.inj (Option.some.inj heq)
      exact hpresent
  · obtain ⟨rfl, -⟩ := pure_eq_ok h
    exact ⟨rfl, ⟨fun _ _ heq => (by cases heq), fun _ _ heq => (by cases heq)⟩⟩

theorem readSources_sound {w : World} {cfg : Config} (hw : w.DescribesTrees cfg) {level : Level}
    {srcs : List SubtreeSource} {k k' : Nat} {rs : List Reading}
    (h : readSources w cfg level srcs k = .ok rs k') :
    rs.map (·.source) = srcs ∧ ∀ r ∈ rs, r.Sound := by
  induction srcs generalizing k k' rs with
  | nil =>
    obtain ⟨rfl, -⟩ := pure_eq_ok h
    exact ⟨rfl, by simp⟩
  | cons src srcs ih =>
    unfold readSources at h
    obtain ⟨r, j, hr, h⟩ := bind_eq_ok h
    obtain ⟨rs', j', hrs, h⟩ := bind_eq_ok h
    obtain ⟨rfl, rfl⟩ := pure_eq_ok h
    obtain ⟨hsrc, hsound⟩ := readSource_sound hw hr
    obtain ⟨hmap, hall⟩ := ih hrs
    refine ⟨by rw [List.map_cons, hsrc, hmap], fun q hq => ?_⟩
    rcases List.mem_cons.mp hq with rfl | hq
    · exact hsound
    · exact hall q hq

theorem buildSources_nodup {w : World} {cfg : Config} (hw : w.DescribesTrees cfg) {k k' : Nat}
    {srcs : List SubtreeSource} (h : buildSources w k = .ok srcs k') : srcs.Nodup := by
  unfold buildSources at h
  obtain ⟨res, j, hrun, h⟩ := bind_eq_ok h
  obtain ⟨rfl, -⟩ := pure_eq_ok h
  rw [List.nodup_cons]
  split
  · have hnd := hw.containers _ _ (run_eq_ok hrun)
    have := hnd.map fun a b h => SubtreeSource.container.inj h
    rw [List.map_map] at this
    exact ⟨by simp, this⟩
  · exact ⟨List.not_mem_nil, List.nodup_nil⟩

/-- A pass that succeeds has read every source once, and assembles the readings. -/
theorem computeForestNodes_readings {E : Env} {w : World} (hw : w.DescribesTrees E.cfg)
    {store : Store} {level : Level} {k k' : Nat} {nodes : List StoredNode}
    (h : computeForestNodes E w store level k = .ok nodes k') :
    ∃ readings : List Reading, (readings.map (·.source)).Nodup ∧ (∀ r ∈ readings, r.Sound) ∧
      nodes = assembleForest E level (store.allUnder E.under .baseline level) readings := by
  unfold computeForestNodes at h
  obtain ⟨srcs, j, hsrcs, h⟩ := bind_eq_ok h
  obtain ⟨readings, j', hreads, h⟩ := bind_eq_ok h
  obtain ⟨rfl, -⟩ := pure_eq_ok h
  obtain ⟨hmap, hsound⟩ := readSources_sound hw hreads
  exact ⟨readings, hmap ▸ buildSources_nodup hw hsrcs, hsound, rfl⟩

/-! ## Freezing keeps the tree -/

/-- The part of a Merkle tree below one of its paths is a Merkle tree. -/
theorem MerkleTree.sub {sha256 : Bytes → Bytes} {t u : List StoredNode} {root : Str}
    (ht : MerkleTree sha256 SUPER_ROOT t) (hroot : root ≠ SUPER_ROOT)
    (hnd : (u.map (·.path)).Nodup) (hu : ∀ n, n ∈ u ↔ n ∈ t ∧ Below root n.path) :
    MerkleTree sha256 root u := by
  refine ⟨hnd, fun n hn => ((hu n).mp hn).2, fun n hn => ht.named n ((hu n).mp hn).1,
    fun n hn hne => ?_, fun n hn => ?_⟩
  · obtain ⟨hnt, hb⟩ := (hu n).mp hn
    rcases hb.cases with h | ⟨-, hpar⟩
    · exact absurd h hne
    · obtain ⟨d, hd, hdp, hdir⟩ := ht.closed n hnt (hb.ne_nil hroot)
      exact ⟨d, (hu d).mpr ⟨hd, hdp ▸ hpar⟩, hdp, hdir⟩
  · obtain ⟨hnt, hb⟩ := (hu n).mp hn
    refine (ht.hashed n hnt).of_perm ht.nodup rfl rfl (List.Perm.map _ ?_)
    refine (List.perm_ext_iff_of_nodup ?_ ?_).mpr fun m => ?_
    · exact (ht.nodup.sublist (List.filter_sublist.map _)).of_map
    · exact (hnd.sublist (List.filter_sublist.map _)).of_map
    · rw [mem_kids, mem_kids, hu]
      refine ⟨fun ⟨hm, hne, hpar⟩ => ⟨⟨hm, ?_⟩, hne, hpar⟩, fun ⟨hm, h⟩ => ⟨hm.1, h⟩⟩
      rw [m.path_eq_join, hpar]
      exact hb.join (slash_notMem_leaf _)

theorem MerkleTree.map_state {sha256 : Bytes → Bytes} {t : List StoredNode} {root : Str}
    (ht : MerkleTree sha256 root t) (f : StoredNode → StoredNode)
    (hpath : ∀ n, (f n).path = n.path) (hhash : ∀ n, (f n).hash = n.hash)
    (hnames : ∀ n, (f n).childNames = n.childNames) : MerkleTree sha256 root (t.map f) := by
  have hparent : ∀ n, (f n).parentPath = n.parentPath := fun n => by
    rw [(f n).parent_eq, n.parent_eq, hpath]
  have hdir : ∀ n, (f n).isDir = n.isDir := fun n => by
    rw [StoredNode.isDir, StoredNode.isDir, hnames]
  have hpaths : (t.map f).map (·.path) = t.map (·.path) := by
    rw [List.map_map]
    exact List.map_congr_left fun n _ => hpath n
  have hrefs : ∀ p, kidRefs (t.map f) p = kidRefs t p := fun p => by
    unfold kidRefs kids
    rw [List.filter_map, List.map_map]
    have hsel : (fun n => decide (n.parentPath = some p)) ∘ f =
        fun n => decide (n.parentPath = some p) := funext fun n => by
      rw [Function.comp, hparent]
    rw [hsel]
    exact List.map_congr_left fun n _ => by rw [Function.comp, childRef, childRef, hpath, hhash]
  refine ⟨hpaths ▸ ht.nodup, fun n hn => ?_, fun n hn => ?_, fun n hn hne => ?_, fun n hn => ?_⟩
  all_goals obtain ⟨m, hm, rfl⟩ := List.mem_map.mp hn
  · exact hpath m ▸ ht.below m hm
  · exact hpath m ▸ ht.named m hm
  · obtain ⟨d, hd, hdp, hddir⟩ := ht.closed m hm (hpath m ▸ hne)
    exact ⟨f d, List.mem_map_of_mem hd, by rw [hpath, hpath, hdp], (hdir d).trans hddir⟩
  · exact (ht.hashed m hm).of_perm ht.nodup (hhash m) (hdir m) (by rw [hrefs, hpath])

/-- A source's scope is what lies below its root. -/
theorem Env.under_source (E : Env) (src : SubtreeSource) {p : Str} (hp : Rooted p) :
    E.under p src.pathPrefix = true ↔ Below src.pathPrefix p :=
  E.impl.laws.subtree p src.pathPrefix hp (by
    cases src with
    | host => exact Or.inl rfl
    | container vmid => exact Or.inr ⟨vmid, rfl⟩)

theorem freezeSubtree_merkle {E : Env} {t : Partition}
    (ht : MerkleTree E.sha256 SUPER_ROOT t.rows) (src : SubtreeSource) :
    MerkleTree E.sha256 src.pathPrefix
      (freezeSubtree E.sha256 src (t.allUnder E.under src.pathPrefix)) := by
  unfold freezeSubtree
  split
  · have hnul : Char.ofNat 0 ∉ leafName src.pathPrefix := fun h =>
      src.nul_notMem_pathPrefix (leafName_subset _ h)
    refine ⟨by simp, ?_, ?_, ?_, ?_⟩
    all_goals
      intro n hn
      rw [List.mem_singleton] at hn
      subst hn
    · exact Below.refl _
    · exact hnul
    · exact fun hne => absurd rfl hne
    · refine .unreadable ?_ rfl
      unfold kids
      rw [List.filter_eq_nil_iff]
      intro m hm
      rw [List.mem_singleton] at hm
      subst hm
      rw [decide_eq_true_iff]
      intro h
      have hlt := length_parent_lt src.pathPrefix_ne_nil
      rw [show parent src.pathPrefix = src.pathPrefix from Option.some.inj h] at hlt
      exact Nat.lt_irrefl _ hlt
  · refine MerkleTree.map_state ?_ _ (fun n => ?_) (fun n => ?_) fun n => ?_
    · refine ht.sub src.pathPrefix_ne_nil (t.allUnder_paths_nodup E.under _) fun n => ?_
      rw [Partition.mem_allUnder, Partition.get_eq_some_iff, E.under_source src n.rooted]
      simp
    all_goals split <;> rfl

/-- The subtrees of distinct sources, when each is a Merkle tree. -/
theorem subtrees_of_readings {E : Env} {level : Level} {frozenBaseline : Str → List StoredNode}
    {readings : List Reading} (hnd : (readings.map (·.source)).Nodup)
    (h : ∀ r ∈ readings,
      MerkleTree E.sha256 r.source.pathPrefix (subtreeOf E level frozenBaseline r)) :
    Subtrees E.sha256 (readings.flatMap (subtreeOf E level frozenBaseline)) := by
  let parts := readings.map fun r => (r.source, subtreeOf E level frozenBaseline r)
  have hflat : readings.flatMap (subtreeOf E level frozenBaseline) = parts.flatMap Prod.snd := by
    rw [List.flatMap_map]
  have hfst : parts.map Prod.fst = readings.map (·.source) := by
    rw [List.map_map]
    rfl
  rw [hflat]
  refine (subtrees_of_merkle (hfst ▸ hnd) fun q hq => ?_).1
  obtain ⟨r, hr, rfl⟩ := List.mem_map.mp hq
  exact h r hr

theorem Reading.Sound.connected {r : Reading} (h : r.Sound) {enumerated : List EnumeratedEntry}
    {hashes : List (Str × Str)} (hlive : r.live = some (enumerated, hashes)) :
    Connected r.source.pathPrefix (synthesizeEntries r.source enumerated) :=
  synthesizeEntries_connected (h.tree _ _ hlive) (h.present _ _ hlive)

theorem Reading.Sound.subtree_merkle {E : Env} {level : Level}
    {frozenBaseline : Str → List StoredNode} {r : Reading} (h : r.Sound)
    {enumerated : List EnumeratedEntry} {hashes : List (Str × Str)}
    (hlive : r.live = some (enumerated, hashes)) :
    MerkleTree E.sha256 r.source.pathPrefix (subtreeOf E level frozenBaseline r) := by
  unfold subtreeOf
  rw [hlive]
  exact assembleSubtree_merkle (h.connected hlive)

/-- Readings of trees over a Merkle baseline assemble to a Merkle tree. -/
theorem assembleForest_merkle {E : Env} {level : Level} {t : Partition}
    (ht : MerkleTree E.sha256 SUPER_ROOT t.rows) {readings : List Reading}
    (hnd : (readings.map (·.source)).Nodup) (hsound : ∀ r ∈ readings, r.Sound) :
    MerkleTree E.sha256 SUPER_ROOT (assembleForest E level (t.allUnder E.under) readings) := by
  refine forest_merkle (subtrees_of_readings hnd fun r hr => ?_)
  cases hlive : r.live with
  | none =>
    unfold subtreeOf
    rw [hlive]
    exact freezeSubtree_merkle ht r.source
  | some en => exact (hsound r hr).subtree_merkle hlive

/-- A pass over a node that describes trees, with a Merkle baseline, yields a
Merkle tree. -/
theorem computeForestNodes_merkle {E : Env} {w : World}
    (hw : w.DescribesTrees E.cfg) {store : Store} {level : Level}
    (hb : MerkleTree E.sha256 SUPER_ROOT (store.part .baseline level).rows) {k k' : Nat}
    {nodes : List StoredNode} (h : computeForestNodes E w store level k = .ok nodes k') :
    MerkleTree E.sha256 SUPER_ROOT nodes := by
  obtain ⟨readings, hnd, hsound, rfl⟩ := computeForestNodes_readings hw h
  exact assembleForest_merkle hb hnd hsound

end HomelabMcp.Integrity
