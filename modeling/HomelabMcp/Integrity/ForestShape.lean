import HomelabMcp.Integrity.Tree
import Mathlib.Data.List.TakeWhile

/-!
# The shape of the forest (forestShape.ts)

`synthesizeEntries` maps one source's enumeration into the forest namespace and
fills in the directories between; `foldForestRoots` builds the group and the
super-root above the subtree roots.

- `synthesizeEntries_connected`: an enumeration of a tree gives connected entries.
- `forest_merkle`: subtrees of distinct sources, with the roots folded on top,
  are one Merkle tree.
-/

namespace HomelabMcp.Integrity

open SlashPath SortKey Text

/-- A source of one forest subtree: the host, or a container. -/
inductive SubtreeSource
  | host
  | container (vmid : Nat)
  deriving DecidableEq

/-- The namespace of a source (forest.ts:145, 162). -/
def SubtreeSource.pathPrefix : SubtreeSource → Str
  | .host => hostPrefix
  | .container vmid => pctGroup ++ '/' :: numeral vmid

/-- forestShape.ts:33. -/
def toForestPath (pre nodePath : Str) : Str :=
  if nodePath = ['/'] then pre else pre ++ nodePath

/-- forestShape.ts:39. -/
def toNodePath (pre forestPath : Str) : Str :=
  if forestPath = pre then ['/'] else forestPath.drop pre.length

namespace SubtreeSource

theorem pathPrefix_ne_nil (src : SubtreeSource) : src.pathPrefix ≠ [] := by
  cases src <;> simp [pathPrefix, hostPrefix, pctGroup]

theorem pathPrefix_rooted (src : SubtreeSource) : Rooted src.pathPrefix := by
  cases src with
  | host => exact Or.inr (Or.inl rfl)
  | container vmid => exact Or.inr (Or.inr (Or.inr (Or.inr ⟨numeral vmid, by simp [pathPrefix]⟩)))

theorem nul_notMem_pathPrefix (src : SubtreeSource) : Char.ofNat 0 ∉ src.pathPrefix := by
  cases src with
  | host => decide
  | container vmid =>
    intro h
    rcases List.mem_append.mp h with h | h
    · revert h
      decide
    · rcases List.mem_cons.mp h with h | h
      · revert h
        decide
      · exact nul_notMem_numeral vmid h

theorem toForestPath_below (src : SubtreeSource) {nodePath : Str}
    (h : nodePath.head? = some '/') : Below src.pathPrefix (toForestPath src.pathPrefix nodePath) := by
  unfold toForestPath
  split
  · exact Below.refl _
  · rw [below_iff_slash src.pathPrefix_ne_nil]
    right
    cases nodePath with
    | nil => cases h
    | cons c l =>
      rw [List.head?_cons, Option.some.injEq] at h
      rw [h]
      exact ⟨l, by simp⟩

end SubtreeSource

/-! ## Entries -/

/-- A directory that nobody enumerated (forestShape.ts:52, 60). -/
def gapEntry (path : Str) (hrooted : Rooted path) (hne : path ≠ SUPER_ROOT) : RawEntry :=
  ⟨path, .dir, none, .present, hrooted, hne⟩

def enumeratedEntry (src : SubtreeSource) (e : EnumeratedEntry) : RawEntry where
  path := toForestPath src.pathPrefix e.nodePath
  kind := e.kind
  mtime := e.mtime
  state := e.state
  rooted := src.pathPrefix_rooted.below src.pathPrefix_ne_nil (src.toForestPath_below e.absolute)
  ne_root := Below.ne_nil src.pathPrefix_ne_nil (src.toForestPath_below e.absolute)

/-- The unlisted directories above a path. -/
def gaps (src : SubtreeSource) (byPath : List RawEntry) (fp : Str) : List Str :=
  climb src.pathPrefix (fun q => decide (q ∈ byPath.map (·.path))) (parentForestPath fp).length
    (parentForestPath fp)

/-- One enumerated entry and the gaps above it (forestShape.ts:54). -/
def addEnumerated (src : SubtreeSource) (byPath : List RawEntry) (e : EnumeratedEntry) :
    List RawEntry :=
  let entry := enumeratedEntry src e
  let listed := KeyedList.upsert (·.path) entry byPath
  listed ++ (gaps src listed entry.path).attach.map fun q =>
    gapEntry q.1 ((mem_climb q.2).2.2.2.2 entry.rooted.parent) (mem_climb q.2).1

/-- forestShape.ts:49. -/
def synthesizeEntries (src : SubtreeSource) (enumerated : List EnumeratedEntry) : List RawEntry :=
  enumerated.foldl (addEnumerated src)
    [gapEntry src.pathPrefix src.pathPrefix_rooted src.pathPrefix_ne_nil]

/-- What an enumeration of a directory tree looks like: only directories have
anything below them, and no name contains the NUL character. -/
structure TreeShaped (src : SubtreeSource) (enumerated : List EnumeratedEntry) : Prop where
  nested : ∀ e ∈ enumerated, ∀ e' ∈ enumerated,
    Below (toForestPath src.pathPrefix e.nodePath) (toForestPath src.pathPrefix e'.nodePath) →
      toForestPath src.pathPrefix e.nodePath ≠ toForestPath src.pathPrefix e'.nodePath →
        e.kind = .dir
  named : ∀ e ∈ enumerated, Char.ofNat 0 ∉ e.nodePath

/-- What the synthesis loop keeps true of its map. -/
structure Filled (src : SubtreeSource) (seen : List EnumeratedEntry)
    (byPath : List RawEntry) : Prop where
  nodup : (byPath.map (·.path)).Nodup
  hasRoot : src.pathPrefix ∈ byPath.map (·.path)
  below : ∀ e ∈ byPath, Below src.pathPrefix e.path
  closed : UpClosed src.pathPrefix (byPath.map (·.path))
  /-- Only what is enumerated can be anything but present. -/
  state : ∀ e ∈ byPath, e.state = .present ∨
    ∃ s ∈ seen, toForestPath src.pathPrefix s.nodePath = e.path ∧ s.state = e.state
  /-- Everything lies above something enumerated; a file is itself enumerated. -/
  origin : ∀ e ∈ byPath, (e.path = src.pathPrefix ∨
      ∃ s ∈ seen, Below e.path (toForestPath src.pathPrefix s.nodePath)) ∧
    (e.kind = .file → ∃ s ∈ seen, s.kind = .file ∧
      toForestPath src.pathPrefix s.nodePath = e.path)

theorem mem_upsert_path {byPath : List RawEntry} {entry : RawEntry} {q : Str} :
    q ∈ (KeyedList.upsert (·.path) entry byPath).map (·.path) ↔
      q = entry.path ∨ q ∈ byPath.map (·.path) := by
  rw [KeyedList.keys_upsert]
  split
  · rename_i h
    exact ⟨Or.inr, fun hq => hq.elim (fun hq => hq ▸ h) id⟩
  · rw [List.mem_append, List.mem_singleton, or_comm]

theorem addEnumerated_paths (src : SubtreeSource) (byPath : List RawEntry) (e : EnumeratedEntry) :
    (addEnumerated src byPath e).map (·.path) =
      (KeyedList.upsert (·.path) (enumeratedEntry src e) byPath).map (·.path) ++
        gaps src (KeyedList.upsert (·.path) (enumeratedEntry src e) byPath)
          (enumeratedEntry src e).path := by
  unfold addEnumerated
  dsimp only
  rw [List.map_append, List.map_map]
  congr 1
  exact List.attach_map_subtype_val _

theorem Filled.step {src : SubtreeSource} {seen : List EnumeratedEntry}
    {byPath : List RawEntry} (h : Filled src seen byPath) (e : EnumeratedEntry) :
    Filled src (seen ++ [e]) (addEnumerated src byPath e) := by
  let entry := enumeratedEntry src e
  let listed := KeyedList.upsert (fun x : RawEntry => x.path) entry byPath
  have hentry : Below src.pathPrefix entry.path := src.toForestPath_below e.absolute
  have hpaths := addEnumerated_paths src byPath e
  have hgaps : ∀ q ∈ gaps src listed entry.path, Below src.pathPrefix q ∧ Below q entry.path ∧
      q ∉ listed.map (·.path) := by
    intro q hq
    have hseen : q ∉ listed.map (·.path) := by simpa using (mem_climb hq).2.1
    rcases hentry.cases with hroot | ⟨hjoin, hpar⟩
    · -- the walk starts above the root, where its length test fails
      have h₁ := (mem_climb hq).2.2.1
      have h₂ := (mem_climb hq).2.2.2.1
      have h₃ : (parentForestPath entry.path).length < entry.path.length :=
        length_parent_lt entry.ne_root
      rw [hroot] at h₂ h₃
      omega
    · refine ⟨((climb_spec src.pathPrefix_ne_nil hpar (Nat.le_refl _)).2 q hq).1, ?_, hseen⟩
      rw [hjoin]
      exact (climb_below_start hpar hq).join (slash_notMem_leaf _)
  have hlisted : ∀ d ∈ listed, d = entry ∨ d ∈ byPath := fun d hd => KeyedList.mem_upsert hd
  have hcases : ∀ d ∈ addEnumerated src byPath e, d = entry ∨ d ∈ byPath ∨
      (d.path ∈ gaps src listed entry.path ∧ d.kind = .dir ∧ d.state = .present) := by
    intro d hd
    rcases List.mem_append.mp hd with hd | hd
    · exact (hlisted d hd).imp_right Or.inl
    · obtain ⟨q, -, rfl⟩ := List.mem_map.mp hd
      exact Or.inr (Or.inr ⟨q.2, rfl, rfl⟩)
  refine ⟨?_, ?_, ?_, ?_, ?_, ?_⟩
  · rw [hpaths]
    refine List.nodup_append.mpr ⟨KeyedList.nodup_upsert h.nodup, climb_nodup, ?_⟩
    exact fun a ha b hb hab => (hgaps b hb).2.2 (hab ▸ ha)
  · rw [hpaths]
    exact List.mem_append_left _ (mem_upsert_path.mpr (Or.inr h.hasRoot))
  · intro d hd
    rcases hcases d hd with rfl | hd | ⟨hd, -⟩
    · exact hentry
    · exact h.below d hd
    · exact (hgaps _ hd).1
  · intro q hq hne
    rw [hpaths] at hq ⊢
    rcases List.mem_append.mp hq with hq | hq
    · rcases mem_upsert_path.mp hq with rfl | hq
      · -- the new entry: the walk starts at its parent
        rcases hentry.cases with hroot | ⟨-, hpar⟩
        · exact absurd hroot hne
        · exact List.mem_append.mpr
            (climb_spec src.pathPrefix_ne_nil hpar (Nat.le_refl _)).1.symm
      · exact List.mem_append_left _ (mem_upsert_path.mpr (Or.inr (h.closed q hq hne)))
    · rcases hentry.cases with hroot | ⟨-, hpar⟩
      · have h₁ := (mem_climb hq).2.2.1
        have h₂ := (mem_climb hq).2.2.2.1
        have h₃ : (parentForestPath entry.path).length < entry.path.length :=
          length_parent_lt entry.ne_root
        rw [hroot] at h₂ h₃
        omega
      · exact List.mem_append.mpr
          (((climb_spec src.pathPrefix_ne_nil hpar (Nat.le_refl _)).2 q hq).2 hne).symm
  · intro d hd
    rcases hcases d hd with rfl | hd | ⟨-, -, hd⟩
    · exact Or.inr ⟨e, by simp, rfl, rfl⟩
    · exact (h.state d hd).imp_right fun ⟨s, hs, h'⟩ => ⟨s, List.mem_append_left _ hs, h'⟩
    · exact Or.inl hd
  · intro d hd
    have hlast : e ∈ seen ++ [e] := by simp
    rcases hcases d hd with rfl | hd | ⟨hd, hdir, -⟩
    · exact ⟨Or.inr ⟨e, hlast, Below.refl _⟩, fun hk => ⟨e, hlast, hk, rfl⟩⟩
    · obtain ⟨h₁, h₂⟩ := h.origin d hd
      exact ⟨h₁.imp_right fun ⟨s, hs, hb⟩ => ⟨s, List.mem_append_left _ hs, hb⟩,
        fun hk => (h₂ hk).imp fun s hs => ⟨List.mem_append_left _ hs.1, hs.2⟩⟩
    · exact ⟨Or.inr ⟨e, hlast, (hgaps _ hd).2.1⟩, fun hk => by rw [hdir] at hk; cases hk⟩

theorem Filled.run {src : SubtreeSource} (enumerated : List EnumeratedEntry)
    {seen : List EnumeratedEntry} {byPath : List RawEntry} (h : Filled src seen byPath) :
    Filled src (seen ++ enumerated) (enumerated.foldl (addEnumerated src) byPath) := by
  induction enumerated generalizing seen byPath with
  | nil => simpa using h
  | cons e enumerated ih =>
    have := ih (h.step e)
    rwa [List.append_assoc, List.singleton_append] at this

theorem filled_root (src : SubtreeSource) :
    Filled src [] [gapEntry src.pathPrefix src.pathPrefix_rooted src.pathPrefix_ne_nil] := by
  refine ⟨by simp, by simp [gapEntry], ?_, ?_, ?_, ?_⟩
  · intro e h
    rw [List.mem_singleton.mp h]
    exact Below.refl _
  · intro q hq hne
    exact absurd (by simpa [gapEntry] using hq) hne
  · intro e h
    rw [List.mem_singleton.mp h]
    exact Or.inl rfl
  · intro e h
    rw [List.mem_singleton.mp h]
    exact ⟨Or.inl rfl, fun hk => by cases hk⟩

theorem synthesizeEntries_filled (src : SubtreeSource) (enumerated : List EnumeratedEntry) :
    Filled src enumerated (synthesizeEntries src enumerated) := by
  have := (filled_root src).run enumerated
  rwa [List.nil_append] at this

theorem synthesizeEntries_present {src : SubtreeSource} {enumerated : List EnumeratedEntry}
    (he : ∀ e ∈ enumerated, e.state = .present) :
    ∀ d ∈ synthesizeEntries src enumerated, d.state = .present := by
  intro d hd
  rcases (synthesizeEntries_filled src enumerated).state d hd with h | ⟨s, hs, -, h⟩
  · exact h
  · rw [← h, he s hs]

theorem leafName_subset (p : Str) : leafName p ⊆ p := by
  unfold leafName leaf
  cases h : cutLast p with
  | none => exact fun _ hc => hc
  | some ab =>
    obtain ⟨a, b⟩ := ab
    obtain ⟨rfl, -⟩ := cutLast_eq_some_iff.mp h
    exact fun c hc => List.mem_append_right a (List.mem_cons_of_mem _ hc)

/-- Only directories have anything listed below them. -/
def Nested (src : SubtreeSource) (enumerated : List EnumeratedEntry) : Prop :=
  ∀ e ∈ enumerated, ∀ e' ∈ enumerated,
    Below (toForestPath src.pathPrefix e.nodePath) (toForestPath src.pathPrefix e'.nodePath) →
      toForestPath src.pathPrefix e.nodePath ≠ toForestPath src.pathPrefix e'.nodePath →
        e.kind = .dir

/-- The entries of an enumeration branch from the root of the source. -/
theorem synthesizeEntries_branching {src : SubtreeSource} {enumerated : List EnumeratedEntry}
    (h : Nested src enumerated) :
    Branching src.pathPrefix (synthesizeEntries src enumerated) := by
  have hs := synthesizeEntries_filled src enumerated
  refine ⟨hs.nodup, hs.below, fun e he hne => ?_, ?_⟩
  · have hpar := hs.closed e.path (List.mem_map_of_mem he) hne
    obtain ⟨d, hd, hdp⟩ := List.mem_map.mp hpar
    refine ⟨d, hd, hdp, ?_⟩
    by_contra hdir
    have hfile : d.kind = .file := by
      cases hk : d.kind with
      | file => rfl
      | dir => exact absurd hk hdir
    obtain ⟨s, hsm, hsk, hsp⟩ := (hs.origin d hd).2 hfile
    have hlt : d.path.length < e.path.length := by
      rw [hdp]
      exact length_parent_lt e.ne_root
    have hstep : Below d.path e.path := by
      have := Below.join_self (a := parentForestPath e.path) (slash_notMem_leaf e.path)
      unfold parentForestPath at this hdp
      rwa [join_parent_leaf e.rooted.head, ← hdp] at this
    rcases (hs.origin e he).1 with hroot | ⟨s', hsm', hb⟩
    · exact hne hroot
    · have := h s hsm s' hsm' (hsp ▸ hstep.trans hb) fun heq => by
        have hlen := hb.length_le
        rw [← heq, hsp] at hlen
        omega
      rw [hsk] at this
      cases this
  · obtain ⟨d, hd, hdp⟩ := List.mem_map.mp hs.hasRoot
    exact ⟨d, hd, hdp⟩

/-- An enumeration of a tree gives connected entries. -/
theorem synthesizeEntries_connected {src : SubtreeSource} {enumerated : List EnumeratedEntry}
    (h : TreeShaped src enumerated) (hpresent : ∀ e ∈ enumerated, e.state = .present) :
    Connected src.pathPrefix (synthesizeEntries src enumerated) := by
  refine ⟨synthesizeEntries_branching h.nested, synthesizeEntries_present hpresent,
    fun e he hmem => ?_⟩
  have hnul : Char.ofNat 0 ∉ e.path := by
    rcases ((synthesizeEntries_filled src enumerated).origin e he).1 with hroot | ⟨s, hsm, hb⟩
    · rw [hroot]
      exact src.nul_notMem_pathPrefix
    · intro hmem
      have := hb.isPrefix.subset hmem
      unfold toForestPath at this
      split at this
      · exact src.nul_notMem_pathPrefix this
      · exact (List.mem_append.mp this).elim src.nul_notMem_pathPrefix (h.named s hsm)
  exact hnul (leafName_subset _ hmem)

/-! ## The roots above the subtrees -/

abbrev ForestPath := { p : Str // Rooted p }

def ForestPath.parent (p : ForestPath) : ForestPath :=
  ⟨parentForestPath p.1, p.2.parent⟩

def ForestPath.root : ForestPath :=
  ⟨SUPER_ROOT, Or.inl rfl⟩

def ForestPath.pct : ForestPath :=
  ⟨pctGroup, by decide⟩

/-- Where a row is stored. -/
def StoredNode.place (n : StoredNode) : ForestPath :=
  ⟨n.path, n.rooted⟩

/-- The loop of forestShape.ts:84: up from `p` to the super-root, as far as
nothing seen is met. -/
def climbToRoot (seen : ForestPath → Bool) : Nat → ForestPath → List ForestPath
  | 0, _ => []
  | fuel + 1, p =>
    if seen p then []
    else p :: if p.1 = SUPER_ROOT then [] else climbToRoot seen fuel p.parent

def addAncestors (nodes : List StoredNode) (ancestors : List ForestPath) (n : StoredNode) :
    List ForestPath :=
  if n.path = SUPER_ROOT then ancestors
  else ancestors ++ climbToRoot
    (fun p => decide (p.1 ∈ nodes.map (·.path)) || decide (p ∈ ancestors))
    (n.path.length + 1) n.place.parent

/-- Every ancestor path that is not itself a node (forestShape.ts:80). -/
def forestAncestors (nodes : List StoredNode) : List ForestPath :=
  nodes.foldl (addAncestors nodes) []

/-- `childrenOf` (forestShape.ts:92). -/
def rootRefs (nodes : List StoredNode) (ancestors : List ForestPath)
    (hashOf : ForestPath → Option Bytes) (parent : ForestPath) : List ChildRef :=
  (nodes.filterMap fun n =>
    if n.parentPath = some parent.1 then (hashOf n.place).map fun h => ⟨leafName n.path, h⟩
    else none) ++
  (ancestors.filterMap fun p =>
    if p ≠ parent ∧ p.parent = parent then (hashOf p).map fun h => ⟨leafName p.1, h⟩ else none)

section

variable (sha256 : Bytes → Bytes)

/-- The row of a synthesized ancestor (forestShape.ts:104). -/
def rootRow (refs : List ChildRef) (p : ForestPath) : StoredNode where
  path := p.1
  hash := hashHex (if refs = [] then emptyDirHash sha256 else foldNode sha256 refs)
  state := if refs = [] then .emptyDir else .present
  mtime := none
  parentPath := if p.1 = SUPER_ROOT then none else some (parentForestPath p.1)
  childNames := some (sortedNames refs)
  rooted := p.2
  parent_eq := rfl

/-- Longest path first. -/
def byLength (ancestors : List ForestPath) : List ForestPath :=
  ancestors.insertionSort fun a b => b.1.length ≤ a.1.length

/-- forestShape.ts:75. -/
def foldForestRoots (nodes : List StoredNode) : List StoredNode :=
  let ancestors := forestAncestors nodes
  (BottomUp.pass (fun hashOf p => some (rootRow sha256 (rootRefs nodes ancestors hashOf p) p))
    (fun n => fromHex n.hash) (byLength ancestors) fun p =>
      (KeyedList.lookup (·.path) p.1 (KeyedList.upsertAll (·.path) nodes [])).map
        fun n => fromHex n.hash).1

end

/-! ## Subtrees do not overlap -/

/-- The container id that a path of the container group names. -/
theorem container_id {vmid : Nat} {p : Str} (h : Below (SubtreeSource.container vmid).pathPrefix p) :
    (p.drop 4).takeWhile (· ≠ '/') = numeral vmid := by
  have hdigits : ∀ c ∈ numeral vmid, decide (c ≠ '/') = true := fun c hc =>
    decide_eq_true fun hslash => slash_notMem_numeral vmid (hslash ▸ hc)
  have hdrop : ∀ t : Str, ((pctGroup ++ '/' :: numeral vmid) ++ t).drop 4 = numeral vmid ++ t := by
    intro t
    rw [show pctGroup ++ '/' :: numeral vmid ++ t = (pctGroup ++ ['/']) ++ (numeral vmid ++ t) by
      simp]
    exact List.drop_left' rfl
  rcases (below_iff_slash (SubtreeSource.pathPrefix_ne_nil _)).mp h with rfl | ⟨t, rfl⟩
  · have := hdrop []
    rw [List.append_nil, List.append_nil] at this
    rw [SubtreeSource.pathPrefix, this]
    exact List.takeWhile_eq_self_iff.mpr hdigits
  · rw [List.append_assoc, SubtreeSource.pathPrefix, hdrop, List.takeWhile_append_of_pos hdigits]
    simp

theorem head_of_below_host {p : Str} (h : Below hostPrefix p) : p.head? = some 'h' := by
  obtain ⟨t, rfl⟩ := h.isPrefix
  rfl

theorem head_of_below_container {vmid : Nat} {p : Str}
    (h : Below (SubtreeSource.container vmid).pathPrefix p) : p.head? = some 'p' := by
  obtain ⟨t, rfl⟩ := h.isPrefix
  rfl

/-- A path belongs to one source. -/
theorem source_unique {a b : SubtreeSource} {p : Str} (ha : Below a.pathPrefix p)
    (hb : Below b.pathPrefix p) : a = b := by
  cases a with
  | host =>
    cases b with
    | host => rfl
    | container w =>
      have := (head_of_below_host ha).symm.trans (head_of_below_container hb)
      exact absurd this (by decide)
  | container v =>
    cases b with
    | host =>
      have := (head_of_below_container ha).symm.trans (head_of_below_host hb)
      exact absurd this (by decide)
    | container w => rw [numeral_injective ((container_id ha).symm.trans (container_id hb))]

/-- Neither the super-root nor the container group belongs to a source. -/
theorem not_below_source {src : SubtreeSource} {p : Str} (hp : p = SUPER_ROOT ∨ p = pctGroup) :
    ¬ Below src.pathPrefix p := by
  intro h
  cases src with
  | host =>
    have := head_of_below_host h
    rcases hp with rfl | rfl <;> exact absurd this (by decide)
  | container v =>
    have hlen := h.length_le
    have hgroup : pctGroup.length = 3 := rfl
    rw [SubtreeSource.pathPrefix, List.length_append, List.length_cons] at hlen
    rcases hp with rfl | rfl
    · have hroot : SUPER_ROOT.length = 0 := rfl
      omega
    · omega

/-- The parent of a source's root. -/
theorem parent_pathPrefix (src : SubtreeSource) :
    parentForestPath src.pathPrefix = SUPER_ROOT ∨ parentForestPath src.pathPrefix = pctGroup := by
  cases src with
  | host => exact Or.inl rfl
  | container v =>
    right
    have := parent_join (p := pctGroup) (slash_notMem_numeral v)
    rwa [join, if_neg (by decide)] at this

/-! ## The forest is one Merkle tree -/

/-- The rows of all subtrees together, before the roots are folded on top. -/
structure Subtrees (sha256 : Bytes → Bytes) (nodes : List StoredNode) : Prop where
  nodup : (nodes.map (·.path)).Nodup
  placed : ∀ n ∈ nodes, ∃ src : SubtreeSource, Below src.pathPrefix n.path ∧
    (n.path = src.pathPrefix ∨ ∃ d ∈ nodes, d.path = parentForestPath n.path ∧ d.isDir = true)
  named : ∀ n ∈ nodes, Char.ofNat 0 ∉ leafName n.path
  hashed : ∀ n ∈ nodes, HashOk sha256 nodes n

theorem HashOk.of_kids {sha256 : Bytes → Bytes} {t u : List StoredNode} {n : StoredNode}
    (h : HashOk sha256 t n) (hk : kids u n.path = kids t n.path) : HashOk sha256 u n := by
  cases h with
  | leaf payload hd hh => exact .leaf payload hd hh
  | unreadable hn hh => exact .unreadable (hk.trans hn) hh
  | emptyDir hd hn hh => exact .emptyDir hd (hk.trans hn) hh
  | node hd hn hh => exact .node hd (hk ▸ hn) (by rw [hh, kidRefs, kidRefs, hk])

/-- A row's children lie in its own subtree. -/
theorem kids_of_other {sha256 : Bytes → Bytes} {a b : SubtreeSource} {t : List StoredNode}
    (ht : MerkleTree sha256 b.pathPrefix t) (hab : a ≠ b) {p : Str} (hp : Below a.pathPrefix p) :
    kids t p = [] := by
  by_contra hne
  obtain ⟨m, hm⟩ := List.exists_mem_of_ne_nil _ hne
  obtain ⟨hmt, -, hpar⟩ := mem_kids.mp hm
  have hbelow : Below a.pathPrefix m.path := by
    rw [m.path_eq_join, hpar]
    exact hp.join (slash_notMem_leaf _)
  exact hab (source_unique hbelow (ht.below m hmt))

theorem subtrees_of_merkle {sha256 : Bytes → Bytes} {parts : List (SubtreeSource × List StoredNode)}
    (hnd : (parts.map Prod.fst).Nodup)
    (hparts : ∀ q ∈ parts, MerkleTree sha256 q.1.pathPrefix q.2) :
    Subtrees sha256 (parts.flatMap Prod.snd) ∧
      ∀ n ∈ parts.flatMap Prod.snd, ∃ q ∈ parts, Below q.1.pathPrefix n.path := by
  induction parts with
  | nil => exact ⟨⟨by simp, by simp, by simp, by simp⟩, by simp⟩
  | cons q parts ih =>
    obtain ⟨src, t⟩ := q
    rw [List.map_cons, List.nodup_cons] at hnd
    have ht : MerkleTree sha256 src.pathPrefix t := hparts (src, t) List.mem_cons_self
    obtain ⟨hrest, howner⟩ := ih hnd.2 fun q hq => hparts q (List.mem_cons_of_mem _ hq)
    have hother : ∀ n ∈ parts.flatMap Prod.snd, ¬ Below src.pathPrefix n.path := fun n hn h => by
      obtain ⟨q, hq, hb⟩ := howner n hn
      have hfst : q.1 ∈ parts.map Prod.fst := List.mem_map_of_mem hq
      exact hnd.1 (source_unique h hb ▸ hfst)
    have hkidsRest : ∀ n ∈ t, kids (parts.flatMap Prod.snd) n.path = [] := fun n hn => by
      by_contra hne
      obtain ⟨m, hm⟩ := List.exists_mem_of_ne_nil _ hne
      obtain ⟨hmr, -, hpar⟩ := mem_kids.mp hm
      refine hother m hmr ?_
      rw [m.path_eq_join, hpar]
      exact (ht.below n hn).join (slash_notMem_leaf _)
    have hkidsHead : ∀ n ∈ parts.flatMap Prod.snd, kids t n.path = [] := fun n hn => by
      obtain ⟨q, hq, hb⟩ := howner n hn
      have hfst : q.1 ∈ parts.map Prod.fst := List.mem_map_of_mem hq
      exact kids_of_other ht (fun h => hnd.1 (h ▸ hfst)) hb
    rw [List.flatMap_cons]
    refine ⟨⟨?_, fun n hn => ?_, fun n hn => ?_, fun n hn => ?_⟩, fun n hn => ?_⟩
    · rw [List.map_append]
      refine List.nodup_append.mpr ⟨ht.nodup, hrest.nodup, fun a ha b hb hab => ?_⟩
      obtain ⟨n, hn, rfl⟩ := List.mem_map.mp ha
      obtain ⟨m, hm, rfl⟩ := List.mem_map.mp hb
      exact hother m hm (hab ▸ ht.below n hn)
    · rcases List.mem_append.mp hn with hn | hn
      · refine ⟨src, ht.below n hn, ?_⟩
        by_cases hroot : n.path = src.pathPrefix
        · exact Or.inl hroot
        · obtain ⟨d, hd, h⟩ := ht.closed n hn hroot
          exact Or.inr ⟨d, List.mem_append_left _ hd, h⟩
      · obtain ⟨s, hb, h⟩ := hrest.placed n hn
        exact ⟨s, hb, h.imp_right fun ⟨d, hd, h⟩ => ⟨d, List.mem_append_right _ hd, h⟩⟩
    · exact (List.mem_append.mp hn).elim (ht.named n) (hrest.named n)
    · rcases List.mem_append.mp hn with hn | hn
      · exact (ht.hashed n hn).of_kids (by rw [kids_append, hkidsRest n hn, List.append_nil])
      · exact (hrest.hashed n hn).of_kids (by rw [kids_append, hkidsHead n hn, List.nil_append])
    · rcases List.mem_append.mp hn with hn | hn
      · exact ⟨(src, t), List.mem_cons_self, ht.below n hn⟩
      · obtain ⟨q, hq, h⟩ := howner n hn
        exact ⟨q, List.mem_cons_of_mem _ hq, h⟩

namespace Subtrees

variable {sha256 : Bytes → Bytes} {nodes : List StoredNode} (hs : Subtrees sha256 nodes)

include hs

theorem not_top {n : StoredNode} (hn : n ∈ nodes) : ¬ (n.path = SUPER_ROOT ∨ n.path = pctGroup) :=
  fun h => by
    obtain ⟨src, hb, -⟩ := hs.placed n hn
    exact not_below_source h hb

end Subtrees

/-- What the ancestor loop keeps true of its set: it grows only by the two paths
above the sources, and never has the group without the super-root. -/
structure Tops (ancestors : List ForestPath) : Prop where
  nodup : ancestors.Nodup
  top : ∀ a ∈ ancestors, a = ForestPath.root ∨ a = ForestPath.pct
  closed : ForestPath.pct ∈ ancestors → ForestPath.root ∈ ancestors

theorem climbToRoot_root (seen : ForestPath → Bool) (fuel : Nat) :
    climbToRoot seen (fuel + 1) .root = if seen .root then [] else [.root] := by
  rw [climbToRoot]
  rfl

theorem climbToRoot_pct (seen : ForestPath → Bool) (fuel : Nat) :
    climbToRoot seen (fuel + 2) .pct =
      if seen .pct then [] else .pct :: if seen .root then [] else [.root] := by
  rw [climbToRoot]
  have : ForestPath.pct.parent = ForestPath.root := rfl
  rw [this, climbToRoot_root, if_neg (show ForestPath.pct.1 ≠ SUPER_ROOT by decide)]

theorem Tops.step {sha256 : Bytes → Bytes} {nodes : List StoredNode} (hs : Subtrees sha256 nodes)
    {ancestors : List ForestPath} (ha : Tops ancestors) {n : StoredNode} (hn : n ∈ nodes) :
    Tops (addAncestors nodes ancestors n) ∧ ancestors ⊆ addAncestors nodes ancestors n ∧
      (parentForestPath n.path ∈ nodes.map (·.path) ∨
        n.place.parent ∈ addAncestors nodes ancestors n) := by
  have hne : n.path ≠ SUPER_ROOT := fun h => hs.not_top hn (Or.inl h)
  have htop : ∀ p : ForestPath, p = .root ∨ p = .pct → p.1 ∉ nodes.map (·.path) := by
    intro p hp hmem
    obtain ⟨m, hm, hmp⟩ := List.mem_map.mp hmem
    refine hs.not_top hm (hp.imp (fun h => ?_) fun h => ?_)
    · rw [hmp, h]; rfl
    · rw [hmp, h]; rfl
  unfold addAncestors
  rw [if_neg hne]
  by_cases hseen : n.place.parent.1 ∈ nodes.map (·.path)
  · rw [climbToRoot, if_pos (by simp only [hseen, decide_true, Bool.true_or]), List.append_nil]
    exact ⟨ha, fun _ h => h, Or.inl hseen⟩
  · -- a subtree root: its parent is one of the two tops
    have hparent : n.place.parent = .root ∨ n.place.parent = .pct := by
      obtain ⟨src, -, hroot | ⟨d, hd, hdp, -⟩⟩ := hs.placed n hn
      · refine (parent_pathPrefix src).imp (fun h => Subtype.ext ?_) fun h => Subtype.ext ?_
        · rw [← hroot] at h; exact h
        · rw [← hroot] at h; exact h
      · exact absurd (List.mem_map.mpr ⟨d, hd, hdp⟩) hseen
    obtain ⟨k, hk⟩ : ∃ k, n.path.length + 1 = k + 2 :=
      ⟨n.path.length - 1, by have := List.length_pos_iff.mpr hne; omega⟩
    have hr := htop .root (Or.inl rfl)
    have hp := htop .pct (Or.inr rfl)
    rw [hk]
    rcases hparent with h | h
    · rw [h, climbToRoot_root]
      by_cases hroot : ForestPath.root ∈ ancestors
      · simp only [hr, hroot, decide_true, Bool.or_true, if_true, List.append_nil]
        exact ⟨ha, fun _ h => h, Or.inr trivial⟩
      · simp only [hr, hroot, decide_false, Bool.or_false, Bool.false_eq_true, if_false]
        refine ⟨⟨?_, ?_, ?_⟩, List.subset_append_left _ _, Or.inr (by simp)⟩
        · exact List.nodup_append.mpr ⟨ha.nodup, by simp, fun a hA b hB hab =>
            hroot (List.mem_singleton.mp hB ▸ hab ▸ hA)⟩
        · intro a hA
          exact (List.mem_append.mp hA).elim (ha.top a) fun hA => Or.inl (List.mem_singleton.mp hA)
        · exact fun _ => by simp
    · rw [h, climbToRoot_pct]
      by_cases hpct : ForestPath.pct ∈ ancestors
      · simp only [hp, hpct, decide_true, Bool.or_true, if_true, List.append_nil]
        exact ⟨ha, fun _ h => h, Or.inr trivial⟩
      · by_cases hroot : ForestPath.root ∈ ancestors
        · simp only [hr, hp, hpct, hroot, decide_true, decide_false, Bool.or_true, Bool.or_false,
            if_true, Bool.false_eq_true, if_false]
          refine ⟨⟨?_, ?_, fun _ => by simp [hroot]⟩, List.subset_append_left _ _, Or.inr (by simp)⟩
          · exact List.nodup_append.mpr ⟨ha.nodup, by simp, fun a hA b hB hab =>
              hpct (List.mem_singleton.mp hB ▸ hab ▸ hA)⟩
          · intro a hA
            exact (List.mem_append.mp hA).elim (ha.top a) fun hA =>
              Or.inr (List.mem_singleton.mp hA)
        · simp only [hr, hp, hpct, hroot, decide_false, Bool.or_false, Bool.false_eq_true, if_false]
          refine ⟨⟨?_, ?_, fun _ => by simp⟩, List.subset_append_left _ _, Or.inr (by simp)⟩
          · refine List.nodup_append.mpr ⟨ha.nodup, by decide, fun a hA b hB hab => ?_⟩
            rcases List.mem_cons.mp hB with rfl | hB
            · exact hpct (hab ▸ hA)
            · exact hroot (List.mem_singleton.mp hB ▸ hab ▸ hA)
          · intro a hA
            rcases List.mem_append.mp hA with hA | hA
            · exact ha.top a hA
            · rcases List.mem_cons.mp hA with hA | hA
              · exact Or.inr hA
              · exact Or.inl (List.mem_singleton.mp hA)

theorem forestAncestors_tops {sha256 : Bytes → Bytes} {nodes : List StoredNode}
    (hs : Subtrees sha256 nodes) :
    Tops (forestAncestors nodes) ∧ ∀ n ∈ nodes,
      parentForestPath n.path ∈ nodes.map (·.path) ∨ n.place.parent ∈ forestAncestors nodes := by
  have hrun : ∀ (ns : List StoredNode) (anc : List ForestPath), (∀ n ∈ ns, n ∈ nodes) → Tops anc →
      Tops (ns.foldl (addAncestors nodes) anc) ∧ anc ⊆ ns.foldl (addAncestors nodes) anc ∧
        ∀ n ∈ ns, parentForestPath n.path ∈ nodes.map (·.path) ∨
          n.place.parent ∈ ns.foldl (addAncestors nodes) anc := by
    intro ns
    induction ns with
    | nil => exact fun anc _ h => ⟨h, fun _ h => h, by simp⟩
    | cons n ns ih =>
      intro anc hns hanc
      obtain ⟨htops, hsub, hparent⟩ := hanc.step hs (hns n List.mem_cons_self)
      obtain ⟨htops', hsub', hrest⟩ := ih _ (fun m hm => hns m (List.mem_cons_of_mem n hm)) htops
      refine ⟨htops', fun _ h => hsub' (hsub h), fun m hm => ?_⟩
      rcases List.mem_cons.mp hm with rfl | hm
      · exact hparent.imp_right fun h => hsub' h
      · exact hrest m hm
  obtain ⟨h₁, -, h₂⟩ := hrun nodes [] (fun _ h => h) ⟨List.nodup_nil, by simp, by simp⟩
  exact ⟨h₁, h₂⟩

section

variable {sha256 : Bytes → Bytes} {nodes : List StoredNode}

theorem parent_length_lt {p q : ForestPath} (hpq : p ≠ q) (h : p.parent = q) :
    q.1.length < p.1.length := by
  have hne : p.1 ≠ [] := fun hnil => hpq (by
    rw [← h]
    exact Subtype.ext (by rw [hnil]; exact (congrArg parentForestPath hnil).symm))
  rw [← h]
  exact length_parent_lt hne

theorem rootRefs_local (nodes : List StoredNode) (ancestors : List ForestPath) :
    BottomUp.Local (fun p : ForestPath => p.1.length) fun hashOf p =>
      some (rootRow sha256 (rootRefs nodes ancestors hashOf p) p) := by
  intro p v v' h
  have hrefs : rootRefs nodes ancestors v p = rootRefs nodes ancestors v' p := by
    unfold rootRefs
    congr 1
    · refine List.filterMap_congr fun n _ => ?_
      split
      · rename_i hn
        obtain ⟨hne, hpar⟩ := StoredNode.parentPath_eq_some.mp hn
        have hlt : p.1.length < n.place.1.length := hpar ▸ length_parent_lt (p := n.path) hne
        rw [h n.place hlt]
      · rfl
    · refine List.filterMap_congr fun q _ => ?_
      split
      · rename_i hq
        rw [h q (parent_length_lt hq.1 hq.2)]
      · rfl
  exact congrArg (fun refs => some (rootRow sha256 refs p)) hrefs

theorem byLength_perm (l : List ForestPath) : (byLength l).Perm l :=
  List.perm_insertionSort _ _

theorem byLength_sorted (l : List ForestPath) :
    (byLength l).Pairwise fun a b => b.1.length ≤ a.1.length := by
  have : Std.Total fun a b : ForestPath => b.1.length ≤ a.1.length :=
    ⟨fun a b => Nat.le_total _ _⟩
  have : IsTrans ForestPath fun a b : ForestPath => b.1.length ≤ a.1.length :=
    ⟨fun _ _ _ h₁ h₂ => Nat.le_trans h₂ h₁⟩
  exact List.pairwise_insertionSort _ _

/-- The synthesized rows, as a solution of their own equations. -/
theorem foldForestRoots_solution (hs : Subtrees sha256 nodes) :
    ∃ refs : ForestPath → List ChildRef,
      foldForestRoots sha256 nodes =
        (byLength (forestAncestors nodes)).map (fun p => rootRow sha256 (refs p) p) ∧
      ∀ p, (refs p).Perm (kidRefs (nodes ++ foldForestRoots sha256 nodes) p.1) := by
  obtain ⟨htops, -⟩ := forestAncestors_tops hs
  let anc := forestAncestors nodes
  let start : ForestPath → Option Bytes := fun p =>
    (KeyedList.lookup (·.path) p.1 (KeyedList.upsertAll (·.path) nodes [])).map
      fun n => fromHex n.hash
  let out := BottomUp.pass
    (fun hashOf p => some (rootRow sha256 (rootRefs nodes anc hashOf p) p))
    (fun n : StoredNode => fromHex n.hash) (byLength anc) start
  have hanc : ∀ p, p ∈ byLength anc ↔ p ∈ anc := fun p => (byLength_perm anc).mem_iff
  have htop : ∀ p ∈ anc, ∀ n ∈ nodes, n.path ≠ p.1 := by
    intro p hp n hn heq
    refine hs.not_top hn ((htops.top p hp).imp (fun h => ?_) fun h => ?_)
    · rw [heq, h]; rfl
    · rw [heq, h]; rfl
  have hitems : out.1 = (byLength anc).map fun p => rootRow sha256 (rootRefs nodes anc out.2 p) p := by
    rw [← List.filterMap_eq_map]
    exact BottomUp.pass_items (rootRefs_local nodes anc) (byLength_sorted anc) start
  have hvalue : ∀ p ∈ anc,
      out.2 p = some (fromHex (rootRow sha256 (rootRefs nodes anc out.2 p) p).hash) := fun p hp =>
    BottomUp.pass_value (rootRefs_local nodes anc)
      (byLength_sorted anc) ((byLength_perm anc).nodup_iff.mpr htops.nodup) ((hanc p).mpr hp) start
      fun q hq => Option.map_eq_none_iff.mpr (KeyedList.lookup_eq_none_iff.mpr fun n hn heq =>
        htop q ((hanc q).mp hq) n ((KeyedList.mem_upsertAll hn).resolve_right (by simp)) heq)
  have hnode : ∀ n ∈ nodes, out.2 n.place = some (fromHex n.hash) := fun n hn => by
    have hnot : n.place ∉ byLength anc := fun h => htop _ ((hanc _).mp h) n hn rfl
    rw [show out.2 n.place = start n.place from BottomUp.pass_value_of_notMem hnot start]
    show Option.map _ (KeyedList.lookup (fun m : StoredNode => m.path) n.path _) = _
    rw [KeyedList.lookup_upsertAll hs.nodup, KeyedList.lookup_self hs.nodup hn]
    rfl
  have hrows : foldForestRoots sha256 nodes = out.1 := rfl
  refine ⟨fun p => rootRefs nodes anc out.2 p, hrows.trans hitems, fun p => ?_⟩
  have hfirst : (nodes.filterMap fun n => if n.parentPath = some p.1 then
      (out.2 n.place).map fun h => (⟨leafName n.path, h⟩ : ChildRef) else none) =
        kidRefs nodes p.1 := by
    unfold kidRefs kids
    rw [← List.filterMap_eq_map, List.filterMap_filter]
    refine List.filterMap_congr fun n hn => ?_
    by_cases hpar : n.parentPath = some p.1
    · simp [hpar, hnode n hn, childRef]
    · simp [hpar]
  have hsecond : (anc.filterMap fun q => if q ≠ p ∧ q.parent = p then
      (out.2 q).map fun h => (⟨leafName q.1, h⟩ : ChildRef) else none).Perm
        (kidRefs out.1 p.1) := by
    have hkids : kidRefs out.1 p.1 = (byLength anc).filterMap fun q => if q ≠ p ∧ q.parent = p then
        (out.2 q).map fun h => (⟨leafName q.1, h⟩ : ChildRef) else none := by
      unfold kidRefs kids
      rw [hitems, List.filter_map, List.map_map, ← List.filterMap_eq_map, List.filterMap_filter]
      refine List.filterMap_congr fun q hq => ?_
      have hsel : (rootRow sha256 (rootRefs nodes anc out.2 q) q).parentPath = some p.1 ↔
          q ≠ p ∧ q.parent = p := by
        rw [StoredNode.parentPath_eq_some]
        constructor
        · rintro ⟨hne, hpar⟩
          have hqp : q.parent = p := Subtype.ext hpar
          refine ⟨fun h => ?_, hqp⟩
          have hlt := length_parent_lt (p := q.1) hne
          rw [show parent q.1 = p.1 from hpar, h] at hlt
          exact Nat.lt_irrefl _ hlt
        · rintro ⟨hne, hpar⟩
          refine ⟨fun hnil => ?_, congrArg Subtype.val hpar⟩
          have hlt := parent_length_lt hne hpar
          rw [show q.1 = [] from hnil] at hlt
          exact Nat.not_lt_zero _ hlt
      by_cases hq' : q ≠ p ∧ q.parent = p
      · simp only [Function.comp, hsel.mpr hq', decide_true, if_true, if_pos hq',
          hvalue q ((hanc q).mp hq)]
        rfl
      · have : ¬ (rootRow sha256 (rootRefs nodes anc out.2 q) q).parentPath = some p.1 :=
          fun h => hq' (hsel.mp h)
        simp only [Function.comp, this, decide_false, if_neg hq', Bool.false_eq_true, if_false]
    rw [hkids]
    exact (byLength_perm anc).symm.filterMap _
  have happend : kidRefs (nodes ++ foldForestRoots sha256 nodes) p.1 =
      kidRefs nodes p.1 ++ kidRefs out.1 p.1 := by
    unfold kidRefs
    rw [kids_append, List.map_append, hrows]
  rw [happend, ← hfirst]
  exact List.Perm.append_left _ hsecond

/-- The subtrees with the roots folded on top are one Merkle tree. -/
theorem forest_merkle (hs : Subtrees sha256 nodes) :
    MerkleTree sha256 SUPER_ROOT (nodes ++ foldForestRoots sha256 nodes) := by
  obtain ⟨htops, hparent⟩ := forestAncestors_tops hs
  obtain ⟨refs, hrows, hperm⟩ := foldForestRoots_solution hs
  have hmem : ∀ m, m ∈ foldForestRoots sha256 nodes ↔
      ∃ p ∈ forestAncestors nodes, rootRow sha256 (refs p) p = m := fun m => by
    rw [hrows, List.mem_map]
    simp only [(byLength_perm _).mem_iff]
  have hrow : ∀ p ∈ forestAncestors nodes,
      ∃ d ∈ nodes ++ foldForestRoots sha256 nodes, d.path = p.1 ∧ d.isDir = true := fun p hp =>
    ⟨_, List.mem_append_right _ ((hmem _).mpr ⟨p, hp, rfl⟩), rfl, rfl⟩
  have hpaths : (foldForestRoots sha256 nodes).map (·.path) =
      (byLength (forestAncestors nodes)).map Subtype.val := by
    rw [hrows, List.map_map]
    rfl
  have hnd : ((nodes ++ foldForestRoots sha256 nodes).map (·.path)).Nodup := by
    rw [List.map_append, hpaths]
    refine List.nodup_append.mpr ⟨hs.nodup, ?_, fun a ha b hb hab => ?_⟩
    · exact ((byLength_perm _).nodup_iff.mpr htops.nodup).map Subtype.val_injective
    · obtain ⟨n, hn, rfl⟩ := List.mem_map.mp ha
      obtain ⟨p, hp, rfl⟩ := List.mem_map.mp hb
      have hp' := (byLength_perm _).mem_iff.mp hp
      refine hs.not_top hn ((htops.top p hp').imp (fun h => ?_) fun h => ?_)
      · rw [hab, h]; rfl
      · rw [hab, h]; rfl
  refine ⟨hnd, fun n _ => below_root n.rooted.head, fun n hn => ?_, fun n hn hne => ?_,
    fun n hn => ?_⟩
  · rcases List.mem_append.mp hn with hn | hn
    · exact hs.named n hn
    · obtain ⟨p, hp, rfl⟩ := (hmem n).mp hn
      rcases htops.top p hp with rfl | rfl
      · exact show Char.ofNat 0 ∉ leafName SUPER_ROOT by decide
      · exact show Char.ofNat 0 ∉ leafName pctGroup by decide
  · rcases List.mem_append.mp hn with hn | hn
    · rcases hparent n hn with hin | hanc
      · obtain ⟨src, hb, hroot | ⟨d, hd, h⟩⟩ := hs.placed n hn
        · obtain ⟨m, hm, hmp⟩ := List.mem_map.mp hin
          rw [hroot] at hmp
          exact absurd ((parent_pathPrefix src).imp (hmp.trans ·) (hmp.trans ·)) (hs.not_top hm)
        · exact ⟨d, List.mem_append_left _ hd, h⟩
      · exact hrow n.place.parent hanc
    · obtain ⟨p, hp, rfl⟩ := (hmem n).mp hn
      rcases htops.top p hp with rfl | rfl
      · exact absurd rfl hne
      · exact hrow .root (htops.closed hp)
  · rcases List.mem_append.mp hn with hn | hn
    · refine (hs.hashed n hn).of_kids ?_
      rw [kids_append]
      refine List.append_right_eq_self.mpr ?_
      by_contra hk
      obtain ⟨m, hm⟩ := List.exists_mem_of_ne_nil _ hk
      obtain ⟨hmr, hmne, hpar⟩ := mem_kids.mp hm
      obtain ⟨p, hp, rfl⟩ := (hmem m).mp hmr
      rcases htops.top p hp with rfl | rfl
      · exact hmne rfl
      · exact hs.not_top hn (Or.inl hpar.symm)
    · obtain ⟨p, hp, rfl⟩ := (hmem n).mp hn
      have hp' := hperm p
      by_cases hrefs : refs p = []
      · have hk : kids (nodes ++ foldForestRoots sha256 nodes) p.1 = [] := by
          rw [hrefs] at hp'
          exact List.map_eq_nil_iff.mp (List.nil_perm.mp hp')
        exact .emptyDir rfl hk (by
          show hashHex (if refs p = [] then _ else _) = _
          rw [if_pos hrefs]
          rfl)
      · have hk : kids (nodes ++ foldForestRoots sha256 nodes) p.1 ≠ [] := fun h => hrefs (by
          rw [kidRefs, h] at hp'
          exact List.perm_nil.mp hp')
        refine .node rfl hk ?_
        show hashHex (if refs p = [] then _ else _) = _
        rw [if_neg hrefs]
        exact congrArg hashHex (foldNode_perm hp'
          ((hp'.map _).nodup_iff.mpr (kids_names_nodup hnd p.1)))

end

end HomelabMcp.Integrity
