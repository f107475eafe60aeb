import HomelabMcp.Lib.BottomUp
import HomelabMcp.Integrity.Merkle
import HomelabMcp.Integrity.Transport

/-!
# Assembling one subtree (tree.ts)

`assembleSubtree` folds a connected list of entries into the rows of one forest
subtree, children before parents. Every level keeps all entries except L2, which
keeps the config files and the directories above them.

- `rowAt_assembleSubtree`: the row at a member path, with the hashes of the
  children taken from the rows themselves.
- `assembleSubtree_merkle`: the result is a Merkle tree from the subtree root.
-/

namespace HomelabMcp.Integrity

open SlashPath SortKey Text

/-- tree.ts:28. -/
structure RawEntry where
  path : Str
  kind : EntryKind
  mtime : Option Int
  state : NodeState
  rooted : Rooted path
  ne_root : path ≠ SUPER_ROOT

/-- The paths that the loop `while (p && p.length >= root.length && !seen.has(p))`
visits on its way up from `p`; it stops after `root`. -/
def climb (root : Str) (seen : Str → Bool) : Nat → Str → List Str
  | 0, _ => []
  | fuel + 1, p =>
    if p ≠ [] ∧ root.length ≤ p.length ∧ seen p = false then
      p :: if p = root then [] else climb root seen fuel (parentForestPath p)
    else []

/-- `set.add(p)`, in insertion order. -/
def addPath (included : List Str) (p : Str) : List Str :=
  if p ∈ included then included else included ++ [p]

section

variable (rootPath : Str) (isConfigFile : Str → Bool)

/-- Mark a config file and what lies above it (tree.ts:74). -/
def includeConfigFile (included : List Str) (e : RawEntry) : List Str :=
  if e.kind = .file ∧ isConfigFile e.path then
    included ++ climb rootPath (fun q => decide (q ∈ included)) e.path.length e.path
  else included

/-- The member paths of a level (tree.ts:72). -/
def includedPaths (level : Level) (entries : List RawEntry) : List Str :=
  match level with
  | .l2 => addPath (entries.foldl (includeConfigFile rootPath isConfigFile) []) rootPath
  | _ => entries.foldl (fun included e => addPath included e.path) []

end

/-- tree.ts:145. -/
def depth (path : Str) : Nat :=
  path.count '/'

section

variable (sha256 : Bytes → Bytes) (level : Level) (contentHash : Str → Option Str)

/-- The hash of a file that was read as present (tree.ts:101). -/
def fileHash (e : RawEntry) : Bytes :=
  match level with
  | .l1 => foldLeaf sha256 (mtimePayload (e.mtime.getD 0))
  | _ =>
    match contentHash e.path with
    | none => unreadableHash sha256
    | some hex => foldLeaf sha256 (contentBuffer hex)

/-- The included children of a directory, with the hashes already computed. -/
def subtreeRefs (entries : List RawEntry) (included : List Str) (hashOf : Str → Option Bytes)
    (path : Str) : List ChildRef :=
  entries.filterMap fun c =>
    if c.path ≠ path ∧ parentForestPath c.path = path ∧ c.path ∈ included then
      (hashOf c.path).map fun h => ⟨leafName c.path, h⟩
    else none

def sortedNames (refs : List ChildRef) : List Str :=
  sortOn nameKey (refs.map (·.name))

/-- The hash of an entry, given its folded children (tree.ts:99). -/
def entryHash (e : RawEntry) (refs : List ChildRef) : Bytes :=
  if e.state = .unreadable then unreadableHash sha256
  else match e.kind with
    | .file => fileHash sha256 level contentHash e
    | .dir => if refs = [] then emptyDirHash sha256 else foldNode sha256 refs

def entryChildNames (e : RawEntry) (refs : List ChildRef) : Option (List Str) :=
  match e.kind with
  | .file => none
  | .dir => some (if e.state = .unreadable then [] else sortedNames refs)

/-- The row of an entry (tree.ts:123). -/
def entryRow (e : RawEntry) (refs : List ChildRef) : StoredNode where
  path := e.path
  hash := hashHex (entryHash sha256 level contentHash e refs)
  state :=
    if e.kind = .dir ∧ e.state = .present ∧ entryChildNames e refs = some [] then .emptyDir
    else e.state
  mtime := e.mtime
  parentPath := some (parentForestPath e.path)
  childNames := entryChildNames e refs
  rooted := e.rooted
  parent_eq := (if_neg e.ne_root).symm

/-- One iteration of the fold (tree.ts:93). -/
def foldEntry (entries : List RawEntry) (included : List Str) (hashOf : Str → Option Bytes)
    (path : Str) : Option StoredNode :=
  (KeyedList.lookup (·.path) path (KeyedList.upsertAll (·.path) entries [])).map fun e =>
    entryRow sha256 level contentHash e (subtreeRefs entries included hashOf path)

/-- Deepest first. -/
def byDepth (included : List Str) : List Str :=
  included.insertionSort fun a b => depth b ≤ depth a

/-- tree.ts:66. -/
def assembleSubtree (rootPath : Str) (isConfigFile : Str → Bool) (entries : List RawEntry) :
    List StoredNode :=
  let included := includedPaths rootPath isConfigFile level entries
  (BottomUp.pass (foldEntry sha256 level contentHash entries included)
    (fun n => fromHex n.hash) (byDepth included) fun _ => none).1

end

/-! ## The upward walk -/

theorem mem_climb {root : Str} {seen : Str → Bool} {fuel : Nat} {p q : Str}
    (h : q ∈ climb root seen fuel p) : q ≠ [] ∧ seen q = false ∧ root.length ≤ q.length ∧
      q.length ≤ p.length ∧ (Rooted p → Rooted q) := by
  induction fuel generalizing p with
  | zero => cases h
  | succ fuel ih =>
    unfold climb at h
    split at h
    · rename_i hp
      rcases List.mem_cons.mp h with rfl | h
      · exact ⟨hp.1, hp.2.2, hp.2.1, Nat.le_refl _, id⟩
      · split at h
        · cases h
        · obtain ⟨h₁, h₂, h₃, h₄, h₅⟩ := ih h
          exact ⟨h₁, h₂, h₃, Nat.le_trans h₄ (Nat.le_of_lt (length_parent_lt hp.1)),
            fun hr => h₅ hr.parent⟩
    · cases h

theorem climb_nodup {root : Str} {seen : Str → Bool} {fuel : Nat} {p : Str} :
    (climb root seen fuel p).Nodup := by
  induction fuel generalizing p with
  | zero => exact List.nodup_nil
  | succ fuel ih =>
    unfold climb
    split
    · rename_i hp
      rw [List.nodup_cons]
      split
      · exact ⟨List.not_mem_nil, List.nodup_nil⟩
      · refine ⟨fun h => ?_, ih⟩
        have := (mem_climb h).2.2.2.1
        exact Nat.not_lt_of_le this (length_parent_lt hp.1)
    · exact List.nodup_nil

/-- A set of paths that contains the parent of each of its members, up to `root`. -/
def UpClosed (root : Str) (s : List Str) : Prop :=
  ∀ q ∈ s, q ≠ root → parentForestPath q ∈ s

/-- The walk passes exactly through the unseen ancestors: from a path at or under
`root` it reaches `root` or something seen. -/
theorem climb_spec {root : Str} (hroot : root ≠ []) {s : List Str} {fuel : Nat} {p : Str}
    (hp : Below root p) (hfuel : p.length ≤ fuel) :
    (p ∈ climb root (fun q => decide (q ∈ s)) fuel p ∨ p ∈ s) ∧
      ∀ q ∈ climb root (fun q => decide (q ∈ s)) fuel p, Below root q ∧ (q ≠ root →
        parentForestPath q ∈ climb root (fun q => decide (q ∈ s)) fuel p ∨
          parentForestPath q ∈ s) := by
  induction fuel generalizing p with
  | zero =>
    have hlen := hp.length_le
    have := List.length_pos_iff.mpr hroot
    omega
  | succ fuel ih =>
    have hlen := hp.length_le
    have hpos := List.length_pos_iff.mpr hroot
    have hpne : p ≠ [] := List.length_pos_iff.mp (by omega)
    unfold climb
    by_cases hs : p ∈ s
    · rw [if_neg (by simp [hs])]
      exact ⟨Or.inr hs, by simp⟩
    · rw [if_pos ⟨hpne, hlen, by simpa using hs⟩]
      refine ⟨Or.inl List.mem_cons_self, fun q hq => ?_⟩
      by_cases hpr : p = root
      · rw [if_pos hpr] at hq
        rw [List.mem_singleton.mp hq]
        exact ⟨hp, fun h => absurd hpr h⟩
      · rw [if_neg hpr] at hq ⊢
        rcases hp.cases with h | ⟨-, hpar⟩
        · exact absurd h hpr
        · have hplen : (parentForestPath p).length < p.length := length_parent_lt hpne
          obtain ⟨hfirst, hrest⟩ := ih hpar (by unfold parentForestPath at hplen; omega)
          rcases List.mem_cons.mp hq with rfl | hq
          · exact ⟨hp, fun _ => hfirst.imp_left (List.mem_cons_of_mem q)⟩
          · obtain ⟨hb, hup⟩ := hrest q hq
            exact ⟨hb, fun hne => (hup hne).imp_left (List.mem_cons_of_mem p)⟩

/-! ## Connected entries -/

/-- Entries from `root` down: every one has its parent directory listed. -/
structure Branching (root : Str) (entries : List RawEntry) : Prop where
  nodup : (entries.map (·.path)).Nodup
  below : ∀ e ∈ entries, Below root e.path
  closed : ∀ e ∈ entries, e.path ≠ root →
    ∃ d ∈ entries, d.path = parentForestPath e.path ∧ d.kind = .dir
  hasRoot : ∃ e ∈ entries, e.path = root

/-- ... and all of them could be read. -/
structure Connected (root : Str) (entries : List RawEntry) : Prop extends
    Branching root entries where
  present : ∀ e ∈ entries, e.state = .present
  named : ∀ e ∈ entries, Char.ofNat 0 ∉ leafName e.path

theorem Branching.root_ne {root : Str} {entries : List RawEntry} (h : Branching root entries) :
    root ≠ [] := by
  obtain ⟨e, -, rfl⟩ := h.hasRoot
  exact e.ne_root

/-! ## Membership of a level -/

theorem mem_addPath {s : List Str} {p q : Str} : q ∈ addPath s p ↔ q ∈ s ∨ q = p := by
  unfold addPath
  split
  · rename_i h
    exact ⟨Or.inl, fun hq => hq.elim id (fun hq => hq ▸ h)⟩
  · simp

theorem nodup_addPath {s : List Str} (hs : s.Nodup) (p : Str) : (addPath s p).Nodup := by
  unfold addPath
  split
  · exact hs
  · rename_i h
    exact List.nodup_append.mpr ⟨hs, by simp, fun a ha b hb => by
      rw [List.mem_singleton.mp hb]
      exact fun hab => h (hab ▸ ha)⟩

/-- What the marking loop keeps true of its set. -/
structure Marked (root : Str) (isConfigFile : Str → Bool) (seen : List RawEntry) (s : List Str) :
    Prop where
  nodup : s.Nodup
  below : ∀ q ∈ s, Below root q
  closed : UpClosed root s
  config : ∀ e ∈ seen, e.kind = .file → isConfigFile e.path = true → e.path ∈ s
  source : ∀ q ∈ s, ∃ e ∈ seen, e.kind = .file ∧ isConfigFile e.path = true ∧ Below q e.path

theorem climb_below_start {root : Str} {seen : Str → Bool} {fuel : Nat} {p q : Str}
    (hp : Below root p) (h : q ∈ climb root seen fuel p) : Below q p := by
  induction fuel generalizing p with
  | zero => cases h
  | succ fuel ih =>
    unfold climb at h
    split at h
    · rcases List.mem_cons.mp h with rfl | h
      · exact Below.refl q
      · split at h
        · cases h
        · rename_i hpr
          rcases hp.cases with hp | ⟨hjoin, hpar⟩
          · exact absurd hp hpr
          · rw [hjoin]
            exact (ih hpar h).join (slash_notMem_leaf p)
    · cases h

theorem Marked.step {root : Str} (hroot : root ≠ []) {isConfigFile : Str → Bool}
    {seen : List RawEntry} {s : List Str} (hs : Marked root isConfigFile seen s) {e : RawEntry}
    (he : Below root e.path) :
    Marked root isConfigFile (seen ++ [e]) (includeConfigFile root isConfigFile s e) := by
  unfold includeConfigFile
  split
  · rename_i hcfg
    obtain ⟨hfirst, hrest⟩ := climb_spec hroot (s := s) he (Nat.le_refl _)
    refine ⟨?_, ?_, ?_, ?_, ?_⟩
    · refine List.nodup_append.mpr ⟨hs.nodup, climb_nodup, fun a ha b hb hab => ?_⟩
      have := (mem_climb hb).2.1
      rw [← hab] at this
      simp [ha] at this
    · intro q hq
      rcases List.mem_append.mp hq with hq | hq
      · exact hs.below q hq
      · exact (hrest q hq).1
    · intro q hq hne
      rcases List.mem_append.mp hq with hq | hq
      · exact List.mem_append_left _ (hs.closed q hq hne)
      · exact List.mem_append.mpr ((hrest q hq).2 hne).symm
    · intro d hd hkind hconf
      rcases List.mem_append.mp hd with hd | hd
      · exact List.mem_append_left _ (hs.config d hd hkind hconf)
      · rw [List.mem_singleton.mp hd]
        exact List.mem_append.mpr hfirst.symm
    · intro q hq
      rcases List.mem_append.mp hq with hq | hq
      · obtain ⟨d, hd, h⟩ := hs.source q hq
        exact ⟨d, List.mem_append_left _ hd, h⟩
      · exact ⟨e, by simp, hcfg.1, hcfg.2, climb_below_start he hq⟩
  · rename_i hcfg
    refine ⟨hs.nodup, hs.below, hs.closed, fun d hd hkind hconf => ?_, fun q hq => ?_⟩
    · rcases List.mem_append.mp hd with hd | hd
      · exact hs.config d hd hkind hconf
      · rw [List.mem_singleton.mp hd] at hkind hconf
        exact absurd ⟨hkind, hconf⟩ hcfg
    · obtain ⟨d, hd, h⟩ := hs.source q hq
      exact ⟨d, List.mem_append_left _ hd, h⟩

theorem Marked.run {root : Str} (hroot : root ≠ []) {isConfigFile : Str → Bool}
    (entries : List RawEntry) {seen : List RawEntry} {s : List Str}
    (hs : Marked root isConfigFile seen s) (he : ∀ e ∈ entries, Below root e.path) :
    Marked root isConfigFile (seen ++ entries)
      (entries.foldl (includeConfigFile root isConfigFile) s) := by
  induction entries generalizing seen s with
  | nil => simpa using hs
  | cons e entries ih =>
    have := ih (hs.step hroot (he e List.mem_cons_self))
      fun d hd => he d (List.mem_cons_of_mem e hd)
    rwa [List.append_assoc, List.singleton_append] at this

theorem marked_all {root : Str} (hroot : root ≠ []) (isConfigFile : Str → Bool)
    {entries : List RawEntry} (he : ∀ e ∈ entries, Below root e.path) :
    Marked root isConfigFile entries
      (entries.foldl (includeConfigFile root isConfigFile) []) := by
  have hempty : Marked root isConfigFile [] [] :=
    ⟨List.nodup_nil, by simp, fun q hq => (by cases hq), by simp, by simp⟩
  simpa using hempty.run hroot entries he

theorem mem_foldl_addPath {entries : List RawEntry} {s : List Str} {q : Str} :
    q ∈ entries.foldl (fun included e => addPath included e.path) s ↔
      q ∈ s ∨ ∃ e ∈ entries, e.path = q := by
  induction entries generalizing s with
  | nil => simp
  | cons e entries ih =>
    rw [List.foldl_cons, ih, mem_addPath, or_assoc, eq_comm (a := q)]
    simp

theorem nodup_foldl_addPath {entries : List RawEntry} {s : List Str} (hs : s.Nodup) :
    (entries.foldl (fun included e => addPath included e.path) s).Nodup := by
  induction entries generalizing s with
  | nil => exact hs
  | cons e entries ih => exact ih (nodup_addPath hs _)

/-- Which entries a level keeps: at L2 the root, the config files and what lies
above them; elsewhere everything. -/
def IsMember (level : Level) (root : Str) (isConfigFile : Str → Bool) (entries : List RawEntry)
    (q : Str) : Prop :=
  match level with
  | .l2 => q = root ∨ (Below root q ∧
      ∃ e ∈ entries, e.kind = .file ∧ isConfigFile e.path = true ∧ Below q e.path)
  | _ => ∃ e ∈ entries, e.path = q

/-- An up-closed set contains everything between its members and the root. -/
theorem UpClosed.mem_of_below {root : Str} {s : List Str} (hs : UpClosed root s) {q p : Str}
    (hp : p ∈ s) (hqp : Below q p) (hrq : Below root q) (hroot : root ≠ []) : q ∈ s := by
  induction hlen : p.length using Nat.strong_induction_on generalizing p with
  | _ k ih =>
    rcases hqp.cases with rfl | ⟨-, hpar⟩
    · exact hp
    · by_cases hpr : p = root
      · -- `q` lies between the root and the root
        have h₁ := hpar.length_le
        have h₂ := hrq.length_le
        have h₃ : (parent p).length < p.length := length_parent_lt (hpr ▸ hroot)
        rw [← hpr] at h₂
        omega
      · have hpne : p ≠ [] := by
          rintro rfl
          have h₂ := hpar.length_le
          rw [parent_nil, List.length_nil, Nat.le_zero, List.length_eq_zero_iff] at h₂
          rw [h₂] at hrq
          have := hrq.length_le
          rw [List.length_nil, Nat.le_zero, List.length_eq_zero_iff] at this
          exact hroot this
        exact ih (parent p).length (hlen ▸ length_parent_lt hpne) (hs p hp hpr) hpar rfl

theorem mem_includedPaths {level : Level} {root : Str} {isConfigFile : Str → Bool}
    {entries : List RawEntry} (hc : Branching root entries) {q : Str} :
    q ∈ includedPaths root isConfigFile level entries ↔
      IsMember level root isConfigFile entries q := by
  have hmarked := marked_all hc.root_ne isConfigFile hc.below
  unfold includedPaths IsMember
  cases level with
  | l2 =>
    simp only [mem_addPath]
    constructor
    · rintro (h | h)
      · exact Or.inr ⟨hmarked.below q h, hmarked.source q h⟩
      · exact Or.inl h
    · rintro (h | ⟨hbelow, e, he, hkind, hconf, hqe⟩)
      · exact Or.inr h
      · exact Or.inl (hmarked.closed.mem_of_below (hmarked.config e he hkind hconf) hqe hbelow
          hc.root_ne)
  | l1 => simp [mem_foldl_addPath]
  | l3 => simp [mem_foldl_addPath]

theorem includedPaths_nodup {level : Level} {root : Str} {isConfigFile : Str → Bool}
    {entries : List RawEntry} (hc : Branching root entries) :
    (includedPaths root isConfigFile level entries).Nodup := by
  unfold includedPaths
  cases level with
  | l2 => exact nodup_addPath (marked_all hc.root_ne isConfigFile hc.below).nodup _
  | l1 => exact nodup_foldl_addPath List.nodup_nil
  | l3 => exact nodup_foldl_addPath List.nodup_nil

theorem IsMember.root {level : Level} {root : Str} {isConfigFile : Str → Bool}
    {entries : List RawEntry} (hc : Branching root entries) :
    IsMember level root isConfigFile entries root := by
  unfold IsMember
  cases level with
  | l2 => exact Or.inl rfl
  | l1 => exact hc.hasRoot
  | l3 => exact hc.hasRoot

/-- Everything between the root and an entry is an entry. -/
theorem Branching.entry_between {root : Str} {entries : List RawEntry}
    (hc : Branching root entries) {e : RawEntry} (he : e ∈ entries) {q : Str} (hq : Below q e.path)
    (hrq : Below root q) : ∃ d ∈ entries, d.path = q := by
  have hclosed : UpClosed root (entries.map (·.path)) := by
    intro p hp hne
    obtain ⟨d, hd, rfl⟩ := List.mem_map.mp hp
    obtain ⟨f, hf, hfp, -⟩ := hc.closed d hd hne
    exact List.mem_map.mpr ⟨f, hf, hfp⟩
  exact List.mem_map.mp (hclosed.mem_of_below (List.mem_map_of_mem he) hq hrq hc.root_ne)

theorem IsMember.entry {level : Level} {root : Str} {isConfigFile : Str → Bool}
    {entries : List RawEntry} (hc : Branching root entries) {q : Str}
    (h : IsMember level root isConfigFile entries q) : ∃ e ∈ entries, e.path = q := by
  unfold IsMember at h
  cases level with
  | l2 =>
    rcases h with rfl | ⟨hbelow, e, he, -, -, hqe⟩
    · exact hc.hasRoot
    · exact hc.entry_between he hqe hbelow
  | l1 => exact h
  | l3 => exact h

theorem IsMember.parent {level : Level} {root : Str} {isConfigFile : Str → Bool}
    {entries : List RawEntry} (hc : Branching root entries) {q : Str}
    (h : IsMember level root isConfigFile entries q) (hne : q ≠ root) :
    IsMember level root isConfigFile entries (parentForestPath q) := by
  have hentry := h.entry hc
  unfold IsMember at h ⊢
  cases level with
  | l2 =>
    rcases h with h | ⟨hbelow, e, he, hkind, hconf, hqe⟩
    · exact absurd h hne
    · rcases hbelow.cases with h | ⟨hjoin, hpar⟩
      · exact absurd h hne
      · refine Or.inr ⟨hpar, e, he, hkind, hconf, Below.trans ?_ hqe⟩
        have := Below.join_self (a := parentForestPath q) (slash_notMem_leaf q)
        unfold parentForestPath at this
        rwa [← hjoin] at this
  | l1 =>
    obtain ⟨e, he, rfl⟩ := hentry
    obtain ⟨d, hd, hdp, -⟩ := hc.closed e he hne
    exact ⟨d, hd, hdp⟩
  | l3 =>
    obtain ⟨e, he, rfl⟩ := hentry
    obtain ⟨d, hd, hdp, -⟩ := hc.closed e he hne
    exact ⟨d, hd, hdp⟩

/-! ## What assembly yields -/

section

variable {sha256 : Bytes → Bytes} {level : Level} {contentHash : Str → Option Str}
  {entries : List RawEntry} {included : List Str} {root : Str} {isConfigFile : Str → Bool}

theorem lookup_byPath (hnd : (entries.map (·.path)).Nodup) (p : Str) :
    KeyedList.lookup (·.path) p (KeyedList.upsertAll (·.path) entries []) =
      KeyedList.lookup (·.path) p entries := by
  rw [KeyedList.lookup_upsertAll hnd]
  simp

theorem foldEntry_eq (hnd : (entries.map (·.path)).Nodup) (hashOf : Str → Option Bytes) (p : Str) :
    foldEntry sha256 level contentHash entries included hashOf p =
      (KeyedList.lookup (·.path) p entries).map fun e =>
        entryRow sha256 level contentHash e (subtreeRefs entries included hashOf p) := by
  rw [← lookup_byPath hnd]
  rfl

theorem foldEntry_path {hashOf : Str → Option Bytes} {p : Str} {n : StoredNode}
    (hnd : (entries.map (·.path)).Nodup)
    (h : foldEntry sha256 level contentHash entries included hashOf p = some n) : n.path = p := by
  rw [foldEntry_eq hnd] at h
  obtain ⟨e, he, rfl⟩ := Option.map_eq_some_iff.mp h
  have hpath : e.path = p := KeyedList.key_of_lookup he
  exact hpath

theorem foldEntry_isSome {hashOf : Str → Option Bytes} {p : Str}
    (hnd : (entries.map (·.path)).Nodup) (h : ∃ e ∈ entries, e.path = p) :
    (foldEntry sha256 level contentHash entries included hashOf p).isSome := by
  rw [foldEntry_eq hnd, Option.isSome_map]
  exact KeyedList.lookup_isSome_iff.mpr h

theorem depth_child {p q : Str} (hq : parentForestPath q = p) (hp : p ≠ []) :
    depth q = depth p + 1 := by
  unfold parentForestPath parent at hq
  cases hcut : cutLast q with
  | none =>
    rw [hcut] at hq
    exact absurd hq.symm hp
  | some ab =>
    obtain ⟨a, b⟩ := ab
    rw [hcut] at hq
    obtain ⟨rfl, hb⟩ := cutLast_eq_some_iff.mp hcut
    have ha : a = p := hq
    subst ha
    unfold depth
    rw [List.count_append, List.count_cons_self, List.count_eq_zero_of_not_mem hb]

theorem subtreeRefs_congr {v v' : Str → Option Bytes} {p : Str} (hp : p ≠ [])
    (h : ∀ q, depth p < depth q → v q = v' q) :
    subtreeRefs entries included v p = subtreeRefs entries included v' p := by
  unfold subtreeRefs
  refine List.filterMap_congr fun c _ => ?_
  split
  · rename_i hc
    rw [h c.path (by rw [depth_child hc.2.1 hp]; omega)]
  · rfl

theorem foldEntry_local (hnd : (entries.map (·.path)).Nodup) :
    BottomUp.Local depth (foldEntry sha256 level contentHash entries included) := by
  intro p v v' h
  rw [foldEntry_eq hnd, foldEntry_eq hnd]
  cases he : KeyedList.lookup (·.path) p entries with
  | none => rfl
  | some e =>
    have hp : p ≠ [] := KeyedList.key_of_lookup he ▸ e.ne_root
    rw [Option.map_some, Option.map_some, subtreeRefs_congr hp h]

theorem byDepth_perm (included : List Str) : (byDepth included).Perm included :=
  List.perm_insertionSort _ _

theorem byDepth_sorted (included : List Str) :
    (byDepth included).Pairwise fun a b => depth b ≤ depth a := by
  have : Std.Total fun a b : Str => depth b ≤ depth a := ⟨fun a b => Nat.le_total _ _⟩
  have : IsTrans Str fun a b : Str => depth b ≤ depth a :=
    ⟨fun _ _ _ h₁ h₂ => Nat.le_trans h₂ h₁⟩
  exact List.pairwise_insertionSort _ _

variable (sha256 level contentHash isConfigFile) in
/-- The rows that assembly yields, as a solution of the fold's own equations:
one row for each member, computed from the rows' hashes. -/
theorem assembleSubtree_solution (hc : Branching root entries) :
    ∃ hashOf : Str → Option Bytes,
      (∀ p, IsMember level root isConfigFile entries p →
        ∃ n, foldEntry sha256 level contentHash entries
            (includedPaths root isConfigFile level entries) hashOf p = some n ∧
          rowAt (assembleSubtree sha256 level contentHash root isConfigFile entries) p = some n ∧
          hashOf p = some (fromHex n.hash)) ∧
      (∀ p, ¬ IsMember level root isConfigFile entries p →
        rowAt (assembleSubtree sha256 level contentHash root isConfigFile entries) p = none ∧
          hashOf p = none) ∧
      ((assembleSubtree sha256 level contentHash root isConfigFile entries).map (·.path)).Nodup := by
  let included := includedPaths root isConfigFile level entries
  let make := foldEntry sha256 level contentHash entries included
  let out := BottomUp.pass make (fun n => fromHex n.hash) (byDepth included) fun _ => none
  have hlocal : BottomUp.Local depth make := foldEntry_local hc.nodup
  have hnd : (byDepth included).Nodup :=
    (byDepth_perm included).nodup_iff.mpr (includedPaths_nodup hc)
  have hmem : ∀ p, p ∈ byDepth included ↔ IsMember level root isConfigFile entries p := fun p =>
    (byDepth_perm included).mem_iff.trans (mem_includedPaths hc)
  have hmake : ∀ p, IsMember level root isConfigFile entries p → ∃ n, make out.2 p = some n :=
    fun p hp => Option.isSome_iff_exists.mp (foldEntry_isSome hc.nodup (hp.entry hc))
  have hitems : out.1 = (byDepth included).filterMap (make out.2) :=
    BottomUp.pass_items hlocal (byDepth_sorted included) _
  have hpaths : out.1.map (·.path) = byDepth included := by
    rw [hitems, List.map_filterMap]
    refine (List.filterMap_congr fun p hp => ?_).trans List.filterMap_some
    obtain ⟨n, hn⟩ := hmake p ((hmem p).mp hp)
    show Option.map _ (make out.2 p) = some p
    rw [show make out.2 p = some n from hn, Option.map_some, foldEntry_path hc.nodup hn]
  have hrows : (out.1.map (·.path)).Nodup := hpaths ▸ hnd
  refine ⟨out.2, fun p hp => ?_, fun p hp => ?_, hrows⟩
  · obtain ⟨n, hn⟩ := hmake p hp
    refine ⟨n, hn, ?_, ?_⟩
    · refine (rowAt_eq_some_iff hrows).mpr ⟨?_, foldEntry_path hc.nodup hn⟩
      show n ∈ out.1
      rw [hitems]
      exact List.mem_filterMap.mpr ⟨p, (hmem p).mpr hp, hn⟩
    · have hval : out.2 p = (make out.2 p).map fun n => fromHex n.hash :=
        BottomUp.pass_value hlocal (byDepth_sorted included) hnd ((hmem p).mpr hp) (fun _ => none)
          fun _ _ => rfl
      show out.2 p = _
      rw [hval, show make out.2 p = some n from hn, Option.map_some]
  · have hnot : p ∉ byDepth included := fun h => hp ((hmem p).mp h)
    refine ⟨rowAt_eq_none_iff.mpr fun n hn hnp => hnot ?_, ?_⟩
    · have : n.path ∈ out.1.map (·.path) := List.mem_map_of_mem hn
      rw [hpaths, hnp] at this
      exact this
    · exact BottomUp.pass_value_of_notMem hnot _

/-- The references a directory folds are those of its rows. -/
theorem subtreeRefs_perm (hc : Branching root entries) {t : List StoredNode}
    {hashOf : Str → Option Bytes} (hnd : (t.map (·.path)).Nodup)
    (hsome : ∀ q, q ∈ included → (∃ e ∈ entries, e.path = q) →
      ∃ n, rowAt t q = some n ∧ hashOf q = some (fromHex n.hash))
    (hnone : ∀ n ∈ t, n.path ∈ included ∧ ∃ e ∈ entries, e.path = n.path) {p : Str} (hp : p ≠ []) :
    (subtreeRefs entries included hashOf p).Perm (kidRefs t p) := by
  let sel : RawEntry → Bool := fun c =>
    decide (c.path ≠ p ∧ parentForestPath c.path = p ∧ c.path ∈ included)
  let ref : Str → ChildRef := fun q => ⟨leafName q, (hashOf q).getD []⟩
  have hself : ∀ q : Str, parentForestPath q = p → q ≠ p := fun q hq hqp => by
    have := depth_child hq hp
    rw [hqp] at this
    omega
  have hrefs : subtreeRefs entries included hashOf p =
      ((entries.filter sel).map (·.path)).map ref := by
    unfold subtreeRefs
    rw [List.map_map, ← List.filterMap_eq_map, List.filterMap_filter]
    refine List.filterMap_congr fun c hcmem => ?_
    by_cases hsel : c.path ≠ p ∧ parentForestPath c.path = p ∧ c.path ∈ included
    · obtain ⟨n, -, hn⟩ := hsome c.path hsel.2.2 ⟨c, hcmem, rfl⟩
      simp [sel, hsel, hn, ref]
    · simp [sel, hsel]
  have hkids : kidRefs t p = ((kids t p).map (·.path)).map ref := by
    unfold kidRefs
    rw [List.map_map]
    refine List.map_congr_left fun n hn => ?_
    have hmem := (mem_kids.mp hn).1
    obtain ⟨hinc, hentry⟩ := hnone n hmem
    obtain ⟨m, hm, hhash⟩ := hsome n.path hinc hentry
    rw [(rowAt_eq_some_iff hnd).mpr ⟨hmem, rfl⟩] at hm
    cases hm
    show childRef n = ref n.path
    simp [ref, childRef, hhash]
  rw [hrefs, hkids]
  refine List.Perm.map _ ((List.perm_ext_iff_of_nodup ?_ ?_).mpr fun q => ?_)
  · exact hc.nodup.sublist (List.filter_sublist.map _)
  · exact hnd.sublist (List.filter_sublist.map _)
  · constructor
    · intro hq
      obtain ⟨c, hcf, rfl⟩ := List.mem_map.mp hq
      obtain ⟨hcmem, hsel⟩ := List.mem_filter.mp hcf
      obtain ⟨-, hpar, hinc⟩ := of_decide_eq_true hsel
      obtain ⟨n, hn, -⟩ := hsome c.path hinc ⟨c, hcmem, rfl⟩
      obtain ⟨hnt, hnp⟩ := (rowAt_eq_some_iff hnd).mp hn
      exact List.mem_map.mpr ⟨n, mem_kids.mpr ⟨hnt, hnp ▸ c.ne_root, hnp ▸ hpar⟩, hnp⟩
    · intro hq
      obtain ⟨n, hn, rfl⟩ := List.mem_map.mp hq
      obtain ⟨hnt, -, hpar⟩ := mem_kids.mp hn
      obtain ⟨hinc, e, he, hep⟩ := hnone n hnt
      exact List.mem_map.mpr ⟨e, List.mem_filter.mpr ⟨he, decide_eq_true
        ⟨hep ▸ hself _ hpar, hep ▸ hpar, hep ▸ hinc⟩⟩, hep⟩

variable (sha256 level contentHash isConfigFile) in
/-- The row at a path of an assembled subtree: nothing off the level, otherwise
the entry's row with the children that the subtree itself has. -/
theorem rowAt_assembleSubtree (hc : Branching root entries) :
    let t := assembleSubtree sha256 level contentHash root isConfigFile entries
    (t.map (·.path)).Nodup ∧
      (∀ p, ¬ IsMember level root isConfigFile entries p → rowAt t p = none) ∧
      ∀ e ∈ entries, IsMember level root isConfigFile entries e.path →
        ∃ refs, refs.Perm (kidRefs t e.path) ∧
          rowAt t e.path = some (entryRow sha256 level contentHash e refs) := by
  intro t
  obtain ⟨hashOf, hin, hout, hnd⟩ := assembleSubtree_solution sha256 level contentHash isConfigFile hc
  refine ⟨hnd, fun p hp => (hout p hp).1, fun e he hmem => ?_⟩
  obtain ⟨n, hn, hrow, -⟩ := hin e.path hmem
  rw [foldEntry_eq hc.nodup, KeyedList.lookup_self hc.nodup he, Option.map_some] at hn
  refine ⟨_, subtreeRefs_perm hc hnd (fun q hq _ => ?_) (fun m hm => ?_)
    e.ne_root, hrow.trans hn.symm⟩
  · obtain ⟨m, -, hm, hh⟩ := hin q ((mem_includedPaths hc).mp hq)
    exact ⟨m, hm, hh⟩
  · have hmember : IsMember level root isConfigFile entries m.path := by
      by_contra hnot
      exact rowAt_eq_none_iff.mp (hout m.path hnot).1 m hm rfl
    exact ⟨(mem_includedPaths hc).mpr hmember, hmember.entry hc⟩

theorem entryRow_isDir (e : RawEntry) (refs : List ChildRef) :
    (entryRow sha256 level contentHash e refs).isDir = decide (e.kind = .dir) := by
  unfold StoredNode.isDir entryRow entryChildNames
  cases e.kind <;> rfl

variable (sha256 level contentHash) in
theorem fileHash_cases (e : RawEntry) :
    (∃ payload, fileHash sha256 level contentHash e = foldLeaf sha256 payload) ∨
      fileHash sha256 level contentHash e = unreadableHash sha256 := by
  unfold fileHash
  cases level with
  | l1 => exact Or.inl ⟨_, rfl⟩
  | l2 =>
    cases contentHash e.path with
    | none => exact Or.inr rfl
    | some hex => exact Or.inl ⟨_, rfl⟩
  | l3 =>
    cases contentHash e.path with
    | none => exact Or.inr rfl
    | some hex => exact Or.inl ⟨_, rfl⟩

/-- A row of an assembled subtree is the row of an entry that the level keeps, and
folds the children that the subtree has. -/
theorem entry_of_row (hc : Branching root entries) {n : StoredNode}
    (hn : n ∈ assembleSubtree sha256 level contentHash root isConfigFile entries) :
    IsMember level root isConfigFile entries n.path ∧ ∃ e ∈ entries, e.path = n.path ∧
      ∃ refs, refs.Perm (kidRefs
          (assembleSubtree sha256 level contentHash root isConfigFile entries) n.path) ∧
        n = entryRow sha256 level contentHash e refs := by
  obtain ⟨hnd, hout, hin⟩ := rowAt_assembleSubtree sha256 level contentHash isConfigFile hc
  have hmember : IsMember level root isConfigFile entries n.path := by
    by_contra hnot
    exact rowAt_eq_none_iff.mp (hout n.path hnot) n hn rfl
  obtain ⟨e, he, hep⟩ := hmember.entry hc
  obtain ⟨refs, hperm, hrow⟩ := hin e he (hep ▸ hmember)
  rw [hep, (rowAt_eq_some_iff hnd).mpr ⟨hn, rfl⟩] at hrow
  exact ⟨hmember, e, he, hep, refs, hep ▸ hperm, Option.some.inj hrow⟩

/-- Every row but the root's has the row of its parent directory beside it. -/
theorem parent_of_row (hc : Branching root entries) {n : StoredNode}
    (hn : n ∈ assembleSubtree sha256 level contentHash root isConfigFile entries)
    (hne : n.path ≠ root) :
    ∃ d ∈ assembleSubtree sha256 level contentHash root isConfigFile entries,
      d.path = parentForestPath n.path ∧ d.isDir = true := by
  obtain ⟨-, -, hin⟩ := rowAt_assembleSubtree sha256 level contentHash isConfigFile hc
  obtain ⟨hmember, e, he, hep, -⟩ := entry_of_row hc hn
  obtain ⟨d, hd, hdp, hdir⟩ := hc.closed e he (hep ▸ hne)
  have hpar := hmember.parent hc hne
  obtain ⟨refs, -, hdrow⟩ := hin d hd (by rw [hdp, hep]; exact hpar)
  refine ⟨_, mem_of_rowAt hdrow, (path_of_rowAt hdrow).trans (hdp.trans (by rw [hep])), ?_⟩
  rw [entryRow_isDir, hdir]
  rfl

theorem assembleSubtree_merkle (hc : Connected root entries) :
    MerkleTree sha256 root (assembleSubtree sha256 level contentHash root isConfigFile entries) := by
  obtain ⟨hnd, -, -⟩ :=
    rowAt_assembleSubtree sha256 level contentHash isConfigFile hc.toBranching
  let t := assembleSubtree sha256 level contentHash root isConfigFile entries
  have hclosed : ∀ n ∈ t, n.path ≠ root →
      ∃ d ∈ t, d.path = parentForestPath n.path ∧ d.isDir = true :=
    fun n hn hne => parent_of_row hc.toBranching hn hne
  have hrow : ∀ n ∈ t, ∃ e ∈ entries, e.path = n.path ∧ ∃ refs, refs.Perm (kidRefs t n.path) ∧
      n = entryRow sha256 level contentHash e refs :=
    fun n hn => (entry_of_row hc.toBranching hn).2
  refine ⟨hnd, fun n hn => ?_, fun n hn => ?_, hclosed, fun n hn => ?_⟩
  · obtain ⟨e, he, hep, -⟩ := hrow n hn
    exact hep ▸ hc.below e he
  · obtain ⟨e, he, hep, -⟩ := hrow n hn
    exact hep ▸ hc.named e he
  · obtain ⟨e, he, hep, refs, hperm, hnrow⟩ := hrow n hn
    have hhash : n.hash = hashHex (entryHash sha256 level contentHash e refs) := by
      rw [hnrow]
      rfl
    have hdir : n.isDir = decide (e.kind = .dir) := by rw [hnrow, entryRow_isDir]
    unfold entryHash at hhash
    rw [if_neg (by rw [hc.present e he]; decide)] at hhash
    cases hkind : e.kind with
    | file =>
      have hleaf : n.isDir = false := by rw [hdir, hkind]; rfl
      rw [hkind] at hhash
      rcases fileHash_cases sha256 level contentHash e with
        ⟨payload, hp⟩ | hp
      · exact .leaf payload hleaf (by rw [hhash, hp]; rfl)
      · refine .unreadable ?_ (by rw [hhash, hp]; rfl)
        -- a child's parent would be a directory, and this row is a file
        by_contra hkids
        obtain ⟨m, hm⟩ := List.exists_mem_of_ne_nil _ hkids
        obtain ⟨hmt, -, hpar⟩ := mem_kids.mp hm
        by_cases hmroot : m.path = root
        · have hb := (hc.below e he).length_le
          have hroot := length_parent_lt (p := m.path) (hmroot ▸ hc.root_ne)
          unfold parentForestPath at hpar
          rw [hpar, hmroot, ← hep] at hroot
          omega
        · obtain ⟨d, hd, hdp, hddir⟩ := hclosed m hmt hmroot
          have : d = n := List.inj_on_of_nodup_map hnd hd hn (hdp.trans hpar)
          rw [this, hleaf] at hddir
          cases hddir
    | dir =>
      have hisdir : n.isDir = true := by rw [hdir, hkind]; rfl
      rw [hkind] at hhash
      by_cases hrefs : refs = []
      · have hkids : kids t n.path = [] := by
          rw [hrefs] at hperm
          exact List.map_eq_nil_iff.mp (List.nil_perm.mp hperm)
        exact .emptyDir hisdir hkids (by rw [hhash]; simp only [if_pos hrefs]; rfl)
      · have hkids : kids t n.path ≠ [] := fun h => hrefs (by
          rw [kidRefs, h] at hperm
          exact List.perm_nil.mp hperm)
        refine .node hisdir hkids ?_
        rw [hhash]
        simp only [if_neg hrefs]
        exact congrArg hashHex (foldNode_perm hperm
          ((hperm.map _).nodup_iff.mpr (kids_names_nodup hnd n.path)))

end

end HomelabMcp.Integrity
