import HomelabMcp.Lib.PrunedDiff
import HomelabMcp.Integrity.NodeStore

/-!
# What makes a list of rows a Merkle tree

`MerkleTree sha256 root t`: the rows `t` are a tree of directories and file
leaves from `root` down, and the hash of each is the fold of its children (or a
leaf payload, or a sentinel). This is the invariant of a baseline partition and
of every freshly assembled forest.

- `kidRefs_perm`: rows of two trees with equal hashes have the same named child
  hashes.
- `hash_agree_below`: from there down the trees agree, which is what lets the
  differ skip equal subtrees.
-/

namespace HomelabMcp.Integrity

open SlashPath SortKey Text

/-- The row at a path. -/
def rowAt (t : List StoredNode) (p : Str) : Option StoredNode :=
  KeyedList.lookup (·.path) p t

/-- The rows directly below a path. -/
def kids (t : List StoredNode) (p : Str) : List StoredNode :=
  t.filter fun n => n.parentPath = some p

/-- How a row is folded into its parent. -/
def childRef (n : StoredNode) : ChildRef :=
  ⟨leafName n.path, fromHex n.hash⟩

def kidRefs (t : List StoredNode) (p : Str) : List ChildRef :=
  (kids t p).map childRef

/-- The hash of the row at a path. -/
def hashAt (t : List StoredNode) (p : Str) : Option Str :=
  (rowAt t p).map (·.hash)

section

variable (sha256 : Bytes → Bytes)

def leafHex (payload : Bytes) : Str :=
  hashHex (foldLeaf sha256 payload)

def nodeHex (refs : List ChildRef) : Str :=
  hashHex (foldNode sha256 refs)

def emptyDirHex : Str :=
  hashHex (emptyDirHash sha256)

def unreadableHex : Str :=
  hashHex (unreadableHash sha256)

/-- The hash of a row is the one its contents give. -/
inductive HashOk (t : List StoredNode) (n : StoredNode) : Prop
  | leaf (payload : Bytes) : n.isDir = false → n.hash = leafHex sha256 payload → HashOk t n
  | unreadable : kids t n.path = [] → n.hash = unreadableHex sha256 → HashOk t n
  | emptyDir : n.isDir = true → kids t n.path = [] → n.hash = emptyDirHex sha256 → HashOk t n
  | node : n.isDir = true → kids t n.path ≠ [] → n.hash = nodeHex sha256 (kidRefs t n.path) →
      HashOk t n

/-- A tree of rows from `root` down, folded bottom-up. -/
structure MerkleTree (root : Str) (t : List StoredNode) : Prop where
  nodup : (t.map (·.path)).Nodup
  below : ∀ n ∈ t, Below root n.path
  named : ∀ n ∈ t, Char.ofNat 0 ∉ leafName n.path
  closed : ∀ n ∈ t, n.path ≠ root →
    ∃ d ∈ t, d.path = parentForestPath n.path ∧ d.isDir = true
  hashed : ∀ n ∈ t, HashOk sha256 t n

end

variable {sha256 : Bytes → Bytes} {t u : List StoredNode} {root p : Str} {n m : StoredNode}

/-! ## Rows and children -/

theorem rowAt_eq_some_iff (hnd : (t.map (·.path)).Nodup) :
    rowAt t p = some n ↔ n ∈ t ∧ n.path = p :=
  KeyedList.lookup_eq_some_iff hnd

theorem rowAt_eq_none_iff : rowAt t p = none ↔ ∀ n ∈ t, n.path ≠ p :=
  KeyedList.lookup_eq_none_iff

theorem mem_of_rowAt (h : rowAt t p = some n) : n ∈ t :=
  KeyedList.mem_of_lookup h

theorem path_of_rowAt (h : rowAt t p = some n) : n.path = p :=
  KeyedList.key_of_lookup h

theorem mem_kids : n ∈ kids t p ↔ n ∈ t ∧ n.path ≠ SUPER_ROOT ∧ parentForestPath n.path = p := by
  unfold kids
  rw [List.mem_filter, decide_eq_true_iff, StoredNode.parentPath_eq_some]

theorem kids_append (t u : List StoredNode) (p : Str) : kids (t ++ u) p = kids t p ++ kids u p :=
  List.filter_append ..

/-- Siblings have different names. -/
theorem kids_names_nodup (hnd : (t.map (·.path)).Nodup) (p : Str) :
    ((kidRefs t p).map (·.name)).Nodup := by
  unfold kidRefs
  rw [List.map_map]
  refine (List.nodup_map_iff_inj_on ?_).mpr fun a ha b hb hab => ?_
  · exact (hnd.sublist (List.filter_sublist.map _)).of_map
  · obtain ⟨hat, hane, hap⟩ := mem_kids.mp ha
    obtain ⟨hbt, hbne, hbp⟩ := mem_kids.mp hb
    refine List.inj_on_of_nodup_map hnd hat hbt ?_
    have hname : leafName a.path = leafName b.path := hab
    rw [a.path_eq_join, b.path_eq_join, hap, hbp, hname]

theorem kidRefs_nodup (hnd : (t.map (·.path)).Nodup) (p : Str) : (kidRefs t p).Nodup :=
  (kids_names_nodup hnd p).of_map

/-! ## What a Merkle tree's hashes say -/

theorem HashOk.digest (h : HashOk sha256 t n) : ∃ x, n.hash = hashHex (sha256 x) := by
  cases h with
  | leaf payload _ h => exact ⟨_, h⟩
  | unreadable _ h => exact ⟨_, h⟩
  | emptyDir _ _ h => exact ⟨_, h⟩
  | node _ _ h => exact ⟨_, h⟩

namespace MerkleTree

theorem kid_below_row (ht : MerkleTree sha256 root t) (hm : m ∈ kids t p)
    (hne : m.path ≠ root) : ∃ d ∈ t, d.path = p ∧ d.isDir = true := by
  obtain ⟨hmem, -, hpar⟩ := mem_kids.mp hm
  exact hpar ▸ ht.closed m hmem hne

/-- File leaves have nothing below them. -/
theorem kids_of_leaf (ht : MerkleTree sha256 root t) (hn : n ∈ t) (hleaf : n.isDir = false) :
    kids t n.path = [] := by
  by_contra hne
  obtain ⟨m, hm⟩ := List.exists_mem_of_ne_nil _ hne
  obtain ⟨hmt, hmne, hpar⟩ := mem_kids.mp hm
  by_cases hroot : m.path = root
  · -- the root would lie strictly below one of its own descendants
    have hlen := (ht.below n hn).length_le
    have hlt : (parentForestPath m.path).length < m.path.length := length_parent_lt hmne
    rw [hpar, hroot] at hlt
    omega
  · obtain ⟨d, hd, hdp, hdir⟩ := ht.kid_below_row hm hroot
    have : d = n := List.inj_on_of_nodup_map ht.nodup hd hn hdp
    rw [this, hleaf] at hdir
    cases hdir

theorem refs_sound (ht : MerkleTree sha256 root t) (p : Str) :
    ∀ c ∈ kidRefs t p, c.Sound sha256 := by
  intro c hc
  obtain ⟨n, hn, rfl⟩ := List.mem_map.mp hc
  have hmem := (mem_kids.mp hn).1
  obtain ⟨x, hx⟩ := (ht.hashed n hmem).digest
  exact ⟨ht.named n hmem, x, by rw [childRef, hx, fromHex_hashHex]⟩

/-- A hash other than that of a directory with children. -/
theorem hash_childless (ht : MerkleTree sha256 root t) (hn : n ∈ t) (hk : kids t n.path = []) :
    (∃ payload, n.hash = leafHex sha256 payload) ∨ n.hash = unreadableHex sha256 ∨
      n.hash = nodeHex sha256 [] := by
  cases ht.hashed n hn with
  | leaf payload _ h => exact Or.inl ⟨payload, h⟩
  | unreadable _ h => exact Or.inr (Or.inl h)
  | emptyDir _ _ h => exact Or.inr (Or.inr h)
  | node _ hne _ => exact absurd hk hne

theorem hash_node (ht : MerkleTree sha256 root t) (hn : n ∈ t) (hk : kids t n.path ≠ []) :
    n.isDir = true ∧ n.hash = nodeHex sha256 (kidRefs t n.path) := by
  cases ht.hashed n hn with
  | leaf payload hleaf _ => exact absurd (ht.kids_of_leaf hn hleaf) hk
  | unreadable h _ => exact absurd h hk
  | emptyDir _ h _ => exact absurd h hk
  | node hdir _ h => exact ⟨hdir, h⟩

end MerkleTree

/-- A fold over children is not the hash of a childless row. -/
theorem nodeHex_ne_childless (hsha : Digest.CollisionFree sha256) {refs : List ChildRef}
    (hne : refs ≠ []) (hrefs : ∀ c ∈ refs, c.Sound sha256) {h : Str}
    (hh : (∃ payload, h = leafHex sha256 payload) ∨ h = unreadableHex sha256 ∨
      h = nodeHex sha256 []) : nodeHex sha256 refs ≠ h := by
  rintro rfl
  rcases hh with ⟨payload, hh⟩ | hh | hh
  · exact foldNode_ne_foldLeaf hsha _ _ (hashHex_injective hh)
  · exact foldNode_ne_unreadable hsha _ (hashHex_injective hh)
  · have := foldNode_inj hsha hrefs (by simp) (hashHex_injective hh)
    exact hne (List.perm_nil.mp this)

/-- Rows of two Merkle trees with equal hashes have the same named children. -/
theorem MerkleTree.kidRefs_perm {root' : Str} (hsha : Digest.CollisionFree sha256)
    (ht : MerkleTree sha256 root t) (hu : MerkleTree sha256 root' u) (hn : n ∈ t) (hm : m ∈ u)
    (hhash : n.hash = m.hash) : (kidRefs t n.path).Perm (kidRefs u m.path) := by
  have nil_of (l : List StoredNode) (q : Str) (h : kids l q = []) : kidRefs l q = [] := by
    rw [kidRefs, h, List.map_nil]
  by_cases hkn : kids t n.path = []
  · by_cases hkm : kids u m.path = []
    · rw [nil_of t _ hkn, nil_of u _ hkm]
    · have hmh := (hu.hash_node hm hkm).2
      refine absurd (hmh.symm.trans hhash.symm) (nodeHex_ne_childless hsha ?_
        (hu.refs_sound _) (ht.hash_childless hn hkn))
      exact fun h => hkm (List.map_eq_nil_iff.mp h)
  · have hnh := (ht.hash_node hn hkn).2
    by_cases hkm : kids u m.path = []
    · refine absurd (hnh.symm.trans hhash) (nodeHex_ne_childless hsha ?_
        (ht.refs_sound _) (hu.hash_childless hm hkm))
      exact fun h => hkn (List.map_eq_nil_iff.mp h)
    · have hmh := (hu.hash_node hm hkm).2
      exact foldNode_inj hsha (ht.refs_sound _) (hu.refs_sound _)
        (hashHex_injective (hnh.symm.trans (hhash.trans hmh)))

/-! ## Comparing two trees -/

/-- A path segment. -/
abbrev Segment := { s : Str // '/' ∉ s }

def child (p : Str) (s : Segment) : Str :=
  join p s.1

theorem below_iff_segments {a p : Str} :
    Below a p ↔ ∃ names : List Segment, p = names.foldl child a := by
  constructor
  · rintro ⟨names, hnames, rfl⟩
    refine ⟨names.attach.map fun s => ⟨s.1, hnames s.1 s.2⟩, ?_⟩
    rw [List.foldl_map, descend, ← List.foldl_attach]
    rfl
  · rintro ⟨names, rfl⟩
    refine ⟨names.map Subtype.val, fun s hs => ?_, ?_⟩
    · obtain ⟨s, -, rfl⟩ := List.mem_map.mp hs
      exact s.2
    · rw [descend, List.foldl_map]
      rfl

/-- A child's hash is what its parent's fold has under its name. -/
theorem MerkleTree.hashAt_child (ht : MerkleTree sha256 root t) {s : Segment}
    (hne : child p s ≠ SUPER_ROOT) {h : Str} :
    hashAt t (child p s) = some h ↔ ∃ x, h = hashHex (sha256 x) ∧ ⟨s.1, sha256 x⟩ ∈ kidRefs t p := by
  unfold hashAt
  rw [Option.map_eq_some_iff]
  constructor
  · rintro ⟨n, hn, rfl⟩
    have hpath := path_of_rowAt hn
    obtain ⟨x, hx⟩ := (ht.hashed n (mem_of_rowAt hn)).digest
    refine ⟨x, hx, List.mem_map.mpr ⟨n, mem_kids.mpr ⟨mem_of_rowAt hn, hpath ▸ hne, ?_⟩, ?_⟩⟩
    · rw [hpath]
      exact parent_join s.2
    · rw [childRef, hx, fromHex_hashHex, hpath]
      exact congrArg (ChildRef.mk · _) (leaf_join s.2)
  · rintro ⟨x, rfl, hmem⟩
    obtain ⟨n, hn, href⟩ := List.mem_map.mp hmem
    obtain ⟨hnt, hnne, hpar⟩ := mem_kids.mp hn
    obtain ⟨hname, hhash⟩ := ChildRef.mk.injEq _ _ _ _ ▸ href
    refine ⟨n, (rowAt_eq_some_iff ht.nodup).mpr ⟨hnt, ?_⟩, ?_⟩
    · rw [n.path_eq_join, hpar, hname]
      rfl
    · obtain ⟨y, hy⟩ := (ht.hashed n hnt).digest
      rw [hy, fromHex_hashHex] at hhash
      rw [hy, hhash]

theorem MerkleTree.closed_hashAt (ht : MerkleTree sha256 SUPER_ROOT t) :
    PrunedDiff.Closed child (hashAt t) := by
  intro p s hp
  by_cases hroot : child p s = SUPER_ROOT
  · have hpnil : p = [] := by
      by_contra h
      exact join_ne_nil (Or.inl h) hroot
    rw [hroot, ← hp, hpnil]
    rfl
  · by_contra hsome
    obtain ⟨h, hh⟩ := Option.ne_none_iff_exists'.mp hsome
    obtain ⟨n, hn, -⟩ := Option.map_eq_some_iff.mp hh
    have hpath := path_of_rowAt hn
    obtain ⟨d, hd, hdp, -⟩ := ht.closed n (mem_of_rowAt hn) (hpath ▸ hroot)
    rw [hpath, parentForestPath, show child p s = join p s.1 from rfl, parent_join s.2] at hdp
    have := Option.map_eq_none_iff.mp hp
    exact rowAt_eq_none_iff.mp this d hd hdp

/-- Above a row there are rows. -/
theorem MerkleTree.present_above (ht : MerkleTree sha256 SUPER_ROOT t) {q : Str} (hb : Below p q)
    (hq : hashAt t q ≠ none) : hashAt t p ≠ none := by
  intro hp
  obtain ⟨names, rfl⟩ := below_iff_segments.mp hb
  exact hq (ht.closed_hashAt.child_none hp names)

theorem MerkleTree.determined (hsha : Digest.CollisionFree sha256)
    (ht : MerkleTree sha256 SUPER_ROOT t) (hu : MerkleTree sha256 SUPER_ROOT u) :
    PrunedDiff.Determined child (hashAt t) (hashAt u) := by
  intro p hp heq s
  obtain ⟨h, hh⟩ := Option.ne_none_iff_exists'.mp hp
  by_cases hroot : child p s = SUPER_ROOT
  · have hpnil : p = [] := by
      by_contra hne
      exact join_ne_nil (Or.inl hne) hroot
    rw [hroot]
    rw [hpnil] at heq
    exact heq
  · obtain ⟨n, hn, hnh⟩ := Option.map_eq_some_iff.mp hh
    obtain ⟨m, hm, hmh⟩ := Option.map_eq_some_iff.mp (heq ▸ hh)
    have hperm := ht.kidRefs_perm hsha hu (mem_of_rowAt hn) (mem_of_rowAt hm) (hnh.trans hmh.symm)
    rw [path_of_rowAt hn, path_of_rowAt hm] at hperm
    ext g
    rw [ht.hashAt_child hroot, hu.hashAt_child hroot]
    simp only [hperm.mem_iff]

/-- Where two Merkle trees agree, they agree all the way down: a comparison may
stop there. -/
theorem MerkleTree.hash_agree_below (hsha : Digest.CollisionFree sha256)
    (ht : MerkleTree sha256 SUPER_ROOT t) (hu : MerkleTree sha256 SUPER_ROOT u)
    (heq : hashAt t p = hashAt u p) {q : Str} (hq : Below p q) : hashAt t q = hashAt u q := by
  obtain ⟨names, rfl⟩ := below_iff_segments.mp hq
  exact PrunedDiff.agree_below (ht.determined hsha hu) ht.closed_hashAt hu.closed_hashAt heq names

/-! ## Putting trees together -/

theorem merkleTree_nil (sha256 : Bytes → Bytes) : MerkleTree sha256 SUPER_ROOT [] :=
  ⟨List.nodup_nil, by simp, by simp, by simp, by simp⟩

theorem HashOk.of_perm {sha256 : Bytes → Bytes} {t u : List StoredNode} {n m : StoredNode}
    (h : HashOk sha256 t n) (hnd : (t.map (·.path)).Nodup) (hhash : m.hash = n.hash)
    (hdir : m.isDir = n.isDir) (hperm : (kidRefs t n.path).Perm (kidRefs u m.path)) :
    HashOk sha256 u m := by
  have hnil : kids t n.path = [] → kids u m.path = [] := fun hk => by
    rw [kidRefs, hk] at hperm
    exact List.map_eq_nil_iff.mp (List.nil_perm.mp hperm)
  cases h with
  | leaf payload hd hh => exact .leaf payload (hdir.trans hd) (hhash.trans hh)
  | unreadable hk hh => exact .unreadable (hnil hk) (hhash.trans hh)
  | emptyDir hd hk hh => exact .emptyDir (hdir.trans hd) (hnil hk) (hhash.trans hh)
  | node hd hk hh =>
    refine .node (hdir.trans hd) (fun hk' => hk ?_) (hhash.trans (hh.trans ?_))
    · have : kidRefs u m.path = [] := by rw [kidRefs, hk', List.map_nil]
      rw [this] at hperm
      exact List.map_eq_nil_iff.mp (List.perm_nil.mp hperm)
    · exact congrArg hashHex (foldNode_perm hperm (kids_names_nodup hnd n.path))

theorem mem_kidRefs {c : ChildRef} (hnd : (t.map (·.path)).Nodup) : c ∈ kidRefs t p ↔
    ∃ q, (∃ n ∈ t, n.path = q) ∧ q ≠ SUPER_ROOT ∧ parentForestPath q = p ∧
      c.name = leafName q ∧ (hashAt t q).map fromHex = some c.hash := by
  unfold kidRefs hashAt
  rw [List.mem_map]
  constructor
  · rintro ⟨n, hn, rfl⟩
    obtain ⟨hnt, hne, hp⟩ := mem_kids.mp hn
    refine ⟨n.path, ⟨n, hnt, rfl⟩, hne, hp, rfl, ?_⟩
    rw [(rowAt_eq_some_iff hnd).mpr ⟨hnt, rfl⟩]
    rfl
  · rintro ⟨q, ⟨n, hnt, rfl⟩, hne, hp, hname, hhash⟩
    refine ⟨n, mem_kids.mpr ⟨hnt, hne, hp⟩, ?_⟩
    rw [(rowAt_eq_some_iff hnd).mpr ⟨hnt, rfl⟩] at hhash
    exact ChildRef.ext hname.symm (Option.some.inj hhash)

/-- The same hashes below a path make the same references. -/
theorem kidRefs_perm_of_hashAt (ht : (t.map (·.path)).Nodup) (hu : (u.map (·.path)).Nodup)
    (h : ∀ q, q ≠ SUPER_ROOT → parentForestPath q = p → hashAt t q = hashAt u q) :
    (kidRefs t p).Perm (kidRefs u p) := by
  have hrow : ∀ q, hashAt t q = hashAt u q → ((∃ n ∈ t, n.path = q) ↔ ∃ n ∈ u, n.path = q) := by
    intro q hq
    have hsome : ∀ l : List StoredNode, (∃ n ∈ l, n.path = q) ↔ (hashAt l q).isSome := fun l => by
      rw [hashAt, Option.isSome_map, rowAt, KeyedList.lookup_isSome_iff]
    rw [hsome, hsome, hq]
  refine (List.perm_ext_iff_of_nodup (kidRefs_nodup ht p) (kidRefs_nodup hu p)).mpr fun c => ?_
  rw [mem_kidRefs ht, mem_kidRefs hu]
  refine exists_congr fun q => ⟨?_, ?_⟩
  · rintro ⟨hq, hne, hp, hname, hhash⟩
    exact ⟨(hrow q (h q hne hp)).mp hq, hne, hp, hname, h q hne hp ▸ hhash⟩
  · rintro ⟨hq, hne, hp, hname, hhash⟩
    exact ⟨(hrow q (h q hne hp)).mpr hq, hne, hp, hname, (h q hne hp).symm ▸ hhash⟩

theorem exists_length_lt (t : List StoredNode) : ∃ bound, ∀ n ∈ t, n.path.length < bound := by
  induction t with
  | nil => exact ⟨0, by simp⟩
  | cons m t ih =>
    obtain ⟨bound, hbound⟩ := ih
    refine ⟨max bound (m.path.length + 1), fun n hn => ?_⟩
    rcases List.mem_cons.mp hn with rfl | hn
    · omega
    · have := hbound n hn
      omega

/-- Two Merkle trees with rows at the same paths, and equal hashes wherever a row has
no children, have equal hashes everywhere. -/
theorem MerkleTree.hashAt_eq_of_childless (ht : MerkleTree sha256 SUPER_ROOT t)
    (hu : MerkleTree sha256 SUPER_ROOT u)
    (hrows : ∀ p, (∃ n ∈ t, n.path = p) ↔ ∃ n ∈ u, n.path = p)
    (hchildless : ∀ n ∈ t, ∀ m ∈ u, n.path = m.path → kids t n.path = [] → kids u m.path = [] →
      n.hash = m.hash) (p : Str) : hashAt t p = hashAt u p := by
  obtain ⟨bound, hbound⟩ := exists_length_lt t
  -- induction on how much longer a path below this one can be
  induction hk : bound - p.length using Nat.strong_induction_on generalizing p with
  | _ k ih =>
    by_cases hp : ∃ n ∈ t, n.path = p
    · obtain ⟨n, hn, rfl⟩ := hp
      obtain ⟨m, hm, hmn⟩ := (hrows n.path).mp ⟨n, hn, rfl⟩
      have hlt := hbound n hn
      have hperm : (kidRefs t n.path).Perm (kidRefs u n.path) := by
        refine kidRefs_perm_of_hashAt ht.nodup hu.nodup fun q hq hqp => ?_
        have hqlen : n.path.length < q.length := by
          have := length_parent_lt hq
          unfold parentForestPath at hqp
          rwa [hqp] at this
        exact ih (bound - q.length) (by omega) q rfl
      have hhash : n.hash = m.hash := by
        by_cases hkids : kids t n.path = []
        · have hkids' : kids u m.path = [] := by
            rw [kidRefs, kidRefs, hkids] at hperm
            rw [hmn]
            exact List.map_eq_nil_iff.mp (List.nil_perm.mp hperm)
          exact hchildless n hn m hm hmn.symm hkids hkids'
        · have hkids' : kids u m.path ≠ [] := fun h => hkids (by
            rw [hmn] at h
            rw [kidRefs, kidRefs, h] at hperm
            exact List.map_eq_nil_iff.mp (List.perm_nil.mp hperm))
          rw [(ht.hash_node hn hkids).2, (hu.hash_node hm hkids').2, hmn]
          exact congrArg hashHex (foldNode_perm hperm (kids_names_nodup ht.nodup n.path))
      have hn' := (rowAt_eq_some_iff ht.nodup).mpr ⟨hn, rfl⟩
      have hm' := (rowAt_eq_some_iff hu.nodup).mpr ⟨hm, hmn⟩
      rw [hashAt, hashAt, hn', hm']
      exact congrArg some hhash
    · have hnone : ∀ l : List StoredNode, (¬ ∃ n ∈ l, n.path = p) → hashAt l p = none := by
        intro l hl
        exact Option.map_eq_none_iff.mpr (rowAt_eq_none_iff.mpr fun n hn hnp => hl ⟨n, hn, hnp⟩)
      rw [hnone t hp, hnone u fun h => hp ((hrows p).mpr h)]

/-- Inside some region the rows of one Merkle tree, outside those of another: a
Merkle tree, when the two agree along the boundary of the region. -/
theorem MerkleTree.patch {v : List StoredNode} (ht : MerkleTree sha256 SUPER_ROOT t)
    (inside : Str → Prop) (hu : MerkleTree sha256 SUPER_ROOT u)
    (hnd : (v.map (·.path)).Nodup) (hin : ∀ p, inside p → rowAt v p = rowAt u p)
    (hout : ∀ p, ¬ inside p → rowAt v p = rowAt t p)
    (hdown : ∀ n : StoredNode, n.path ≠ SUPER_ROOT → inside (parentForestPath n.path) →
      inside n.path)
    (hboundary : ∀ p, inside p → ¬ inside (parentForestPath p) → hashAt t p = hashAt u p) :
    MerkleTree sha256 SUPER_ROOT v := by
  have hmem : ∀ n, n ∈ v ↔ (inside n.path ∧ n ∈ u) ∨ (¬ inside n.path ∧ n ∈ t) := by
    intro n
    have hv := rowAt_eq_some_iff (p := n.path) (n := n) hnd
    have htn := rowAt_eq_some_iff (p := n.path) (n := n) ht.nodup
    have hun := rowAt_eq_some_iff (p := n.path) (n := n) hu.nodup
    simp only [and_true] at hv htn hun
    by_cases h : inside n.path
    · rw [← hv, hin _ h, hun]
      simp [h]
    · rw [← hv, hout _ h, htn]
      simp [h]
  have hhash_in : ∀ p, inside p → hashAt v p = hashAt u p := fun p h => by
    rw [hashAt, hashAt, hin p h]
  have hhash_out : ∀ p, ¬ inside p → hashAt v p = hashAt t p := fun p h => by
    rw [hashAt, hashAt, hout p h]
  refine ⟨hnd, fun n hn => below_root n.rooted.head, fun n hn => ?_, fun n hn hne => ?_,
    fun n hn => ?_⟩
  · rcases (hmem n).mp hn with ⟨-, h⟩ | ⟨-, h⟩
    · exact hu.named n h
    · exact ht.named n h
  · rcases (hmem n).mp hn with ⟨hi, hnu⟩ | ⟨ho, hnt⟩
    · by_cases hp : inside (parentForestPath n.path)
      · obtain ⟨d, hd, hdp, hdir⟩ := hu.closed n hnu hne
        exact ⟨d, (hmem d).mpr (Or.inl ⟨hdp ▸ hp, hd⟩), hdp, hdir⟩
      · -- the row stands on the boundary, so the other tree has one there too
        have hsome : hashAt u n.path ≠ none := by
          rw [hashAt, (rowAt_eq_some_iff hu.nodup).mpr ⟨hnu, rfl⟩]
          simp
        rw [← hboundary _ hi hp] at hsome
        obtain ⟨h, hh⟩ := Option.ne_none_iff_exists'.mp hsome
        obtain ⟨m, hm, -⟩ := Option.map_eq_some_iff.mp hh
        obtain ⟨d, hd, hdp, hdir⟩ := ht.closed m (mem_of_rowAt hm) (path_of_rowAt hm ▸ hne)
        rw [path_of_rowAt hm] at hdp
        exact ⟨d, (hmem d).mpr (Or.inr ⟨hdp ▸ hp, hd⟩), hdp, hdir⟩
    · obtain ⟨d, hd, hdp, hdir⟩ := ht.closed n hnt hne
      exact ⟨d, (hmem d).mpr (Or.inr ⟨fun h => ho (hdown n hne (hdp ▸ h)), hd⟩), hdp, hdir⟩
  · have hrow : ∀ q, q ≠ SUPER_ROOT → parentForestPath q = n.path → inside n.path →
        hashAt u q = hashAt v q := fun q hq hqp hi => by
      by_cases hqi : inside q
      · exact (hhash_in q hqi).symm
      · have hno : ∀ l : List StoredNode, hashAt l q = none := fun l => by
          by_contra hsome
          obtain ⟨h, hh⟩ := Option.ne_none_iff_exists'.mp hsome
          obtain ⟨m, hm, -⟩ := Option.map_eq_some_iff.mp hh
          have hmq := path_of_rowAt hm
          exact hqi (hmq ▸ hdown m (hmq ▸ hq) (hmq ▸ hqp.symm ▸ hi))
        rw [hno, hno]
    rcases (hmem n).mp hn with ⟨hi, hnu⟩ | ⟨ho, hnt⟩
    · exact (hu.hashed n hnu).of_perm hu.nodup rfl rfl
        (kidRefs_perm_of_hashAt hu.nodup hnd fun q hq hqp => hrow q hq hqp hi)
    · refine (ht.hashed n hnt).of_perm ht.nodup rfl rfl
        (kidRefs_perm_of_hashAt ht.nodup hnd fun q hq hqp => ?_)
      by_cases hqi : inside q
      · rw [hhash_in q hqi]
        exact hboundary q hqi (hqp.symm ▸ ho)
      · rw [hhash_out q hqi]

end HomelabMcp.Integrity
