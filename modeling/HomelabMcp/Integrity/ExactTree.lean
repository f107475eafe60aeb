import HomelabMcp.Integrity.ForestDetermined

/-!
# One subtree, closed and exact (forestShape.ts, tree.ts)

`assembleSubtree` over `synthesizeEntries`, for any enumeration of a tree: in any
order, with gaps, with paths listed twice, and with entries that could not be read.

- `ExactTree`: the rows are closed under parents, fold exactly their children, and
  stand at exactly the paths that the level keeps.
- `assembleSubtree_exact`: assembly yields such a tree. A directory that could not be
  read is the one exception: it carries the sentinel and lists nothing.
-/

namespace HomelabMcp.Integrity

open SlashPath SortKey Text

/-- What an enumeration of a directory tree looks like: a path is of one kind, and
only directories have anything below them. -/
structure TreeConsistent (src : SubtreeSource) (enumerated : List EnumeratedEntry) : Prop where
  oneKind : ∀ e ∈ enumerated, ∀ e' ∈ enumerated,
    toForestPath src.pathPrefix e.nodePath = toForestPath src.pathPrefix e'.nodePath →
      e.kind = e'.kind
  nested : Nested src enumerated

/-- The paths that a level keeps: the root of the source, and what lies at or above
an enumerated entry; at L2, at or above an enumerated config file. -/
def KeptPath (level : Level) (src : SubtreeSource) (isConfigFile : Str → Bool)
    (enumerated : List EnumeratedEntry) (q : Str) : Prop :=
  q = src.pathPrefix ∨ Below src.pathPrefix q ∧ ∃ e ∈ enumerated,
    (level = .l2 → e.kind = .file ∧ isConfigFile (toForestPath src.pathPrefix e.nodePath) = true) ∧
      Below q (toForestPath src.pathPrefix e.nodePath)

/-- The fold of the rows directly below a path. -/
def foldOfKids (sha256 : Bytes → Bytes) (t : List StoredNode) (p : Str) : Str :=
  if kids t p = [] then emptyDirHex sha256 else nodeHex sha256 (kidRefs t p)

section

variable (sha256 : Bytes → Bytes) (level : Level) (src : SubtreeSource)
  (isConfigFile : Str → Bool) (enumerated : List EnumeratedEntry)

/-- Rows that are closed under parents, fold exactly their children and are exactly
those of the level, save for directories that are exempt. -/
structure ExactTree (exempt : StoredNode → Prop) (t : List StoredNode) : Prop where
  nodup : (t.map (·.path)).Nodup
  listed : ∀ n ∈ t, n.path ≠ src.pathPrefix → ∃ d ∈ t, d.path = parentForestPath n.path ∧
    d.isDir = true ∧ (¬ exempt d → ∃ names, d.childNames = some names ∧ leafName n.path ∈ names)
  folded : ∀ d ∈ t, d.isDir = true → ¬ exempt d →
    d.childNames = some (sortOn nameKey ((kids t d.path).map fun n => leafName n.path)) ∧
      d.hash = foldOfKids sha256 t d.path
  kept : ∀ q, (∃ n ∈ t, n.path = q) ↔ KeptPath level src isConfigFile enumerated q

/-- A row of something that could not be read. -/
def Unreadable (n : StoredNode) : Prop :=
  n.state = .unreadable

end

/-! ## What a level keeps -/

theorem lastListed_some {src : SubtreeSource} {enumerated : List EnumeratedEntry} {path : Str}
    {e : EnumeratedEntry} (h : lastListed src enumerated path = some e) :
    e ∈ enumerated ∧ toForestPath src.pathPrefix e.nodePath = path := by
  induction enumerated using List.reverseRecOn with
  | nil => cases h
  | append_singleton seen s ih =>
    rw [lastListed_concat] at h
    split at h
    · rename_i hs
      cases h
      exact ⟨by simp, hs⟩
    · exact (ih h).imp_left (List.mem_append_left _)

section

variable {src : SubtreeSource} {enumerated : List EnumeratedEntry} {level : Level}
  {isConfigFile : Str → Bool}

/-- A config file among the entries is one that the enumeration lists, and conversely. -/
theorem configFile_iff (h : TreeConsistent src enumerated) (p : Str) :
    (∃ e ∈ synthesizeEntries src enumerated, e.kind = .file ∧ e.path = p) ↔
      ∃ s ∈ enumerated, s.kind = .file ∧ toForestPath src.pathPrefix s.nodePath = p := by
  have hfilled := synthesizeEntries_filled src enumerated
  have hlisting := synthesizeEntries_listing src enumerated
  constructor
  · rintro ⟨e, he, hfile, rfl⟩
    exact (hfilled.origin e he).2 hfile
  · rintro ⟨s, hs, hfile, rfl⟩
    obtain ⟨d, hd, hdp⟩ := List.mem_map.mp (hlisting.listed s hs)
    refine ⟨d, hd, ?_, hdp⟩
    -- what was listed last at the path is of the kind of `s`
    cases hlast : lastListed src enumerated d.path with
    | none => exact absurd hdp.symm (lastListed_eq_none_iff.mp hlast s hs)
    | some e =>
      obtain ⟨he, hep⟩ := lastListed_some hlast
      rw [hlisting.kind d hd, hlast]
      exact (h.oneKind e he s hs (hep.trans hdp)).trans hfile

theorem isMember_iff_keptPath (h : TreeConsistent src enumerated) (q : Str) :
    IsMember level src.pathPrefix isConfigFile (synthesizeEntries src enumerated) q ↔
      KeptPath level src isConfigFile enumerated q := by
  have hfilled := synthesizeEntries_filled src enumerated
  have hlisting := synthesizeEntries_listing src enumerated
  have hentries : (∃ e ∈ synthesizeEntries src enumerated, e.path = q) ↔ q = src.pathPrefix ∨
      Below src.pathPrefix q ∧
        ∃ e ∈ enumerated, Below q (toForestPath src.pathPrefix e.nodePath) := by
    constructor
    · rintro ⟨e, he, rfl⟩
      exact (hfilled.origin e he).1.imp_right fun horigin => ⟨hfilled.below e he, horigin⟩
    · rintro (rfl | ⟨hbelow, e, he, hb⟩)
      · exact List.mem_map.mp hfilled.hasRoot
      · exact List.mem_map.mp
          (hfilled.closed.mem_of_below (hlisting.listed e he) hb hbelow src.pathPrefix_ne_nil)
  unfold KeptPath
  cases level with
  | l1 => simpa [IsMember] using hentries
  | l3 => simpa [IsMember] using hentries
  | l2 =>
    show (q = src.pathPrefix ∨ _) ↔ _
    refine or_congr_right (and_congr_right fun _ => ?_)
    constructor
    · rintro ⟨e, he, hfile, hconf, hb⟩
      obtain ⟨s, hs, hsf, hsp⟩ := (configFile_iff h e.path).mp ⟨e, he, hfile, rfl⟩
      exact ⟨s, hs, fun _ => ⟨hsf, hsp ▸ hconf⟩, hsp ▸ hb⟩
    · rintro ⟨s, hs, hcfg, hb⟩
      obtain ⟨hsf, hconf⟩ := hcfg rfl
      obtain ⟨e, he, hfile, hep⟩ := (configFile_iff h _).mpr ⟨s, hs, hsf, rfl⟩
      exact ⟨e, he, hfile, hep ▸ hconf, hep ▸ hb⟩

end

/-! ## The rows -/

section

variable {sha256 : Bytes → Bytes} {level : Level} {contentHash : Str → Option Str}
  {t : List StoredNode}

/-- The row of a directory that could be read, by the children the tree has. -/
theorem entryRow_dir (hnd : (t.map (·.path)).Nodup) {e : RawEntry} {refs : List ChildRef}
    (hkind : e.kind = .dir) (hstate : e.state ≠ .unreadable)
    (hperm : refs.Perm (kidRefs t e.path)) :
    (entryRow sha256 level contentHash e refs).childNames =
        some (sortOn nameKey ((kids t e.path).map fun n => leafName n.path)) ∧
      (entryRow sha256 level contentHash e refs).hash = foldOfKids sha256 t e.path := by
  have hnames : (refs.map (·.name)).Perm ((kids t e.path).map fun n => leafName n.path) := by
    have := hperm.map (·.name)
    unfold kidRefs at this
    rwa [List.map_map] at this
  have hdistinct : ((kidRefs t e.path).map (·.name)).Nodup := kids_names_nodup hnd e.path
  have hrefs : refs = [] ↔ kids t e.path = [] := by
    rw [← List.length_eq_zero_iff, hperm.length_eq, kidRefs, List.length_map,
      List.length_eq_zero_iff]
  constructor
  · show entryChildNames e refs = _
    unfold entryChildNames sortedNames
    rw [hkind]
    dsimp only
    rw [if_neg hstate]
    have hkeys : ((refs.map (·.name)).map nameKey).Nodup :=
      ((hperm.map _).nodup_iff.mpr hdistinct).map nameKey_injective
    exact congrArg some (sortOn_eq_of_perm nameKey hnames hkeys)
  · show hashHex (entryHash sha256 level contentHash e refs) = _
    unfold entryHash foldOfKids
    rw [if_neg hstate, hkind]
    dsimp only
    by_cases hempty : kids t e.path = []
    · rw [if_pos (hrefs.mpr hempty), if_pos hempty]
      rfl
    · rw [if_neg (fun h => hempty (hrefs.mp h)), if_neg hempty]
      exact congrArg hashHex (foldNode_perm hperm ((hperm.map _).nodup_iff.mpr hdistinct))

variable (sha256 level contentHash) in
/-- The row of something that could not be read. -/
theorem entryRow_unreadable {e : RawEntry} (refs : List ChildRef)
    (hstate : e.state = .unreadable) :
    (entryRow sha256 level contentHash e refs).hash = unreadableHex sha256 ∧
      ((entryRow sha256 level contentHash e refs).isDir = true →
        (entryRow sha256 level contentHash e refs).childNames = some []) := by
  refine ⟨?_, fun hdir => ?_⟩
  · show hashHex (entryHash sha256 level contentHash e refs) = _
    unfold entryHash
    rw [if_pos hstate]
    rfl
  · rw [entryRow_isDir, decide_eq_true_iff] at hdir
    show entryChildNames e refs = _
    unfold entryChildNames
    rw [hdir]
    dsimp only
    rw [if_pos hstate]

theorem entryRow_state {e : RawEntry} {refs : List ChildRef} :
    Unreadable (entryRow sha256 level contentHash e refs) ↔ e.state = .unreadable := by
  unfold Unreadable entryRow
  dsimp only
  split
  · rename_i h
    rw [h.2.1]
    decide
  · exact Iff.rfl

end

/-- Assembly yields a closed and exact tree of the enumeration, in which a directory
that could not be read carries the sentinel and lists nothing. -/
theorem assembleSubtree_exact {src : SubtreeSource} {enumerated : List EnumeratedEntry}
    (h : TreeConsistent src enumerated) (sha256 : Bytes → Bytes) (level : Level)
    (contentHash : Str → Option Str) (isConfigFile : Str → Bool) :
    let t := assembleSubtree sha256 level contentHash src.pathPrefix isConfigFile
      (synthesizeEntries src enumerated)
    ExactTree sha256 level src isConfigFile enumerated Unreadable t ∧
      ∀ n ∈ t, Unreadable n → n.hash = unreadableHex sha256 ∧
        (n.isDir = true → n.childNames = some []) ∧
          ∃ e ∈ enumerated, toForestPath src.pathPrefix e.nodePath = n.path ∧
            e.state = .unreadable := by
  intro t
  have hc := synthesizeEntries_branching h.nested
  obtain ⟨hnd, -, hin⟩ := rowAt_assembleSubtree sha256 level contentHash isConfigFile hc
  have hfolded : ∀ d ∈ t, d.isDir = true → ¬ Unreadable d →
      d.childNames = some (sortOn nameKey ((kids t d.path).map fun n => leafName n.path)) ∧
        d.hash = foldOfKids sha256 t d.path := by
    intro d hd hdir hread
    obtain ⟨-, e, -, hep, refs, hperm, hrow⟩ := entry_of_row hc hd
    rw [hrow, entryRow_isDir, decide_eq_true_iff] at hdir
    rw [hrow, entryRow_state] at hread
    rw [hrow, ← show e.path = (entryRow sha256 level contentHash e refs).path from rfl]
    exact entryRow_dir hnd hdir hread (hep ▸ hperm)
  refine ⟨⟨hnd, fun n hn hne => ?_, hfolded, fun q => ?_⟩, fun n hn hun => ?_⟩
  · obtain ⟨d, hd, hdp, hdir⟩ := parent_of_row hc hn hne
    refine ⟨d, hd, hdp, hdir, fun hread => ⟨_, (hfolded d hd hdir hread).1, ?_⟩⟩
    rw [mem_sortOn]
    obtain ⟨-, e, -, hep, -⟩ := entry_of_row hc hn
    exact List.mem_map.mpr ⟨n, mem_kids.mpr ⟨hn, hep ▸ e.ne_root, hdp.symm⟩, rfl⟩
  · rw [← isMember_iff_keptPath h]
    constructor
    · rintro ⟨n, hn, rfl⟩
      exact (entry_of_row hc hn).1
    · intro hq
      obtain ⟨e, he, rfl⟩ := hq.entry hc
      obtain ⟨refs, -, hrow⟩ := hin e he hq
      exact ⟨_, mem_of_rowAt hrow, path_of_rowAt hrow⟩
  · obtain ⟨-, e, he, hep, refs, -, hrow⟩ := entry_of_row hc hn
    rw [hrow, entryRow_state] at hun
    obtain ⟨hhash, hnames⟩ := entryRow_unreadable sha256 level contentHash refs hun
    rcases (synthesizeEntries_filled src enumerated).state e he with hpresent | ⟨s, hs, hsp, hst⟩
    · rw [hun] at hpresent
      cases hpresent
    · exact ⟨hrow ▸ hhash, hrow ▸ hnames, s, hs, hsp.trans hep, hst.trans hun⟩

/-- A file below a directory that is not listed, a directory that could not be read,
and one path listed twice. -/
def etcEnumerated : List EnumeratedEntry :=
  [⟨"/etc/ssh/sshd_config".toList, .file, some 7, .present, rfl⟩,
    ⟨"/etc/private".toList, .dir, none, .unreadable, rfl⟩,
    ⟨"/etc/ssh/sshd_config".toList, .file, some 8, .present, rfl⟩]

theorem etcEnumerated_consistent : TreeConsistent .host etcEnumerated :=
  ⟨by decide +kernel, .of_listing (by decide +kernel)⟩

theorem assembleSubtree_exact_etc :
    let t := assembleSubtree Digest.lengthPrefixed .l1 (fun _ => none)
      SubtreeSource.host.pathPrefix (fun _ => true) (synthesizeEntries .host etcEnumerated)
    ExactTree Digest.lengthPrefixed .l1 .host (fun _ => true) etcEnumerated Unreadable t ∧
      ∀ n ∈ t, Unreadable n → n.hash = unreadableHex Digest.lengthPrefixed ∧
        (n.isDir = true → n.childNames = some []) ∧
          ∃ e ∈ etcEnumerated, toForestPath SubtreeSource.host.pathPrefix e.nodePath = n.path ∧
            e.state = .unreadable :=
  assembleSubtree_exact etcEnumerated_consistent _ _ _ _

/-- The hash of a directory that could not be read is not the fold of its children. -/
theorem not_assembleSubtree_exact :
    ¬ ∀ (sha256 : Bytes → Bytes) (level : Level) (contentHash : Str → Option Str)
      (isConfigFile : Str → Bool) (src : SubtreeSource) (enumerated : List EnumeratedEntry),
        TreeConsistent src enumerated →
          ExactTree sha256 level src isConfigFile enumerated (fun _ => False)
            (assembleSubtree sha256 level contentHash src.pathPrefix isConfigFile
              (synthesizeEntries src enumerated)) := by
  intro h
  have hexact := h Digest.lengthPrefixed .l1 (fun _ => none) (fun _ => true) .host etcEnumerated
    etcEnumerated_consistent
  let t := assembleSubtree Digest.lengthPrefixed .l1 (fun _ => none)
    SubtreeSource.host.pathPrefix (fun _ => true) (synthesizeEntries .host etcEnumerated)
  have hall : ∀ d ∈ t, d.isDir = true → d.hash = foldOfKids Digest.lengthPrefixed t d.path :=
    fun d hd hdir => (hexact.folded d hd hdir id).2
  exact absurd hall (by decide +kernel)

end HomelabMcp.Integrity
