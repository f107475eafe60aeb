import HomelabMcp.Integrity.AutoAccept

/-!
# Folding keeps the tree

The paths of a run are folded in the order of the report, a directory before
what lies in it. A folded directory carries the hash it has on the node, which
is right only once the folds below it have refolded it. `MerkleBut` is the
invariant of the loop: a Merkle tree, but for directories that a later fold will
refold.

- `FoldSpec.merkleBut`: one fold keeps the invariant.
- `foldRows_merkle`: the folds of a run leave a Merkle tree when they fit.
-/

namespace HomelabMcp.Integrity

open SlashPath SortKey Text

variable {sha256 : Bytes → Bytes} {t t' b working : Partition} {p q x : Str}
  {row n m : StoredNode} {paths : List Str}

/-- A Merkle tree, but for directories at the given paths. -/
structure MerkleBut (sha256 : Bytes → Bytes) (stale : Str → Prop) (t : Partition) : Prop where
  named : ∀ n ∈ t.rows, Char.ofNat 0 ∉ leafName n.path
  closed : ∀ n ∈ t.rows, n.path ≠ SUPER_ROOT →
    ∃ d ∈ t.rows, d.path = parentForestPath n.path ∧ d.isDir = true
  hashed : ∀ n ∈ t.rows, HashOk sha256 t.rows n ∨ (n.isDir = true ∧ stale n.path)

theorem MerkleTree.merkleBut (ht : MerkleTree sha256 SUPER_ROOT t.rows) (stale : Str → Prop) :
    MerkleBut sha256 stale t :=
  ⟨ht.named, ht.closed, fun n hn => Or.inl (ht.hashed n hn)⟩

theorem MerkleBut.merkle {stale : Str → Prop} (ht : MerkleBut sha256 stale t)
    (h : ∀ x, ¬ stale x) : MerkleTree sha256 SUPER_ROOT t.rows :=
  ⟨t.nodup, fun n _ => below_root n.rooted.head, ht.named, ht.closed,
    fun n hn => (ht.hashed n hn).resolve_right fun hs => h _ hs.2⟩

theorem MerkleBut.unbroken {stale : Str → Prop} (ht : MerkleBut sha256 stale t)
    (hq : t.get q ≠ none) : Unbroken t x q := by
  intro y _ hyq
  induction hlen : q.length using Nat.strong_induction_on generalizing q with
  | _ k ih =>
    rcases hyq.eq_or_above with rfl | hy
    · exact hq
    · obtain ⟨n, hn⟩ := Option.ne_none_iff_exists'.mp hq
      obtain ⟨hmem, hpath⟩ := Partition.get_eq_some_iff.mp hn
      by_cases hroot : q = SUPER_ROOT
      · subst hroot
        rwa [hyq.eq_nil]
      · obtain ⟨d, hd, hdp, -⟩ := ht.closed n hmem (hpath ▸ hroot)
        have hdq : t.get (parent q) ≠ none := by
          rw [Partition.get_eq_some_iff.mpr ⟨hd, hdp.trans (congrArg parent hpath)⟩]
          simp
        exact ih _ (hlen ▸ length_parent_lt hroot) hdq hy rfl

/-! ## One fold -/

/-- A fold keeps the invariant when its row has a directory above it, when the
row's hash is right over what the baseline has below it or is still to be
refolded, and when the row is a directory if there is anything below it. What
lies above the row is refolded, so it need not wait any longer. -/
theorem FoldSpec.merkleBut {stale stale' : Str → Prop} (h : FoldSpec sha256 t t' row)
    (ht : MerkleBut sha256 stale t)
    (hstale : ∀ x, stale x → stale' x ∨ (Below x row.path ∧ x ≠ row.path))
    (hnamed : Char.ofNat 0 ∉ leafName row.path)
    (habove : row.path ≠ SUPER_ROOT →
      ∃ d, t.get (parentForestPath row.path) = some d ∧ d.isDir = true)
    (hrow : HashOk sha256 t.rows row ∨ (row.isDir = true ∧ stale' row.path))
    (hdir : t.getChildren row.path ≠ [] → row.isDir = true) : MerkleBut sha256 stale' t' := by
  have hget : ∀ {u : Partition} {m : StoredNode}, m ∈ u.rows → u.get m.path = some m :=
    Partition.get_of_mem
  have hself : ∀ {m : StoredNode}, m ∈ t'.rows → m.path = row.path → m = row := fun hm hp =>
    Option.some.inj ((hget hm).symm.trans (hp ▸ h.stored))
  have hkept : ∀ {m : StoredNode}, m ∈ t'.rows → Kept t t' m.path → m ∈ t.rows ∧
      (kidRefs t.rows m.path).Perm (kidRefs t'.rows m.path) := by
    intro m hm ⟨hg, hc⟩
    rw [hget hm] at hg
    have := hc (by rw [← hg]; simp)
    exact ⟨(Partition.get_eq_some_iff.mp hg.symm).1,
      (t.kidRefs_perm _).symm.trans (this ▸ t'.kidRefs_perm _)⟩
  have hnode : ∀ {m : StoredNode}, m ∈ t'.rows → RefoldedAt sha256 t t' m.path →
      HashOk sha256 t'.rows m := by
    rintro m hm ⟨hsome, m₀, hm₀, hg⟩
    have hmrow : m = refoldedRow sha256 t' m₀ := Option.some.inj ((hget hm).symm.trans hg)
    have hp : m₀.path = m.path := Partition.get_path hm₀
    refine .node (by rw [hmrow]; rfl) (fun hk => hsome (Partition.kids_eq_nil_iff.mp hk)) ?_
    have hrefs : (t'.getChildren m₀.path).map childRef ≠ [] := fun hnil =>
      hsome (hp ▸ List.map_eq_nil_iff.mp hnil)
    have hhash : m.hash = nodeHex sha256 ((t'.getChildren m₀.path).map childRef) := by
      rw [hmrow]
      exact if_neg hrefs
    rw [hhash, hp]
    refine congrArg hashHex (foldNode_perm (t'.kidRefs_perm m.path) ?_)
    exact ((t'.kidRefs_perm m.path).map _).nodup_iff.mpr (kids_names_nodup t'.nodup m.path)
  -- the rows above the stored one are all there, so all of them are refolded
  have hrefold : ∀ x, Below x row.path → x ≠ row.path → RefoldedAt sha256 t t' x := by
    intro x hx hne
    have hroot : row.path ≠ SUPER_ROOT := fun heq => hne (by
      rw [heq] at hx ⊢
      exact hx.eq_nil)
    obtain ⟨d, hd, -⟩ := habove hroot
    exact h.above x hroot (hx.eq_or_above.resolve_left hne) (ht.unbroken (by rw [hd]; simp))
  have hold : ∀ m ∈ t'.rows, m.path ≠ row.path → ∃ m₀ ∈ t.rows, m₀.path = m.path := by
    intro m hm hne
    rcases h.others _ hne with hk | ⟨-, -, -, m₀, hm₀, -⟩
    · exact ⟨m, (hkept hm hk).1, rfl⟩
    · exact ⟨m₀, Partition.get_eq_some_iff.mp hm₀⟩
  have hdirs : ∀ d ∈ t.rows, d.isDir = true → (d.path = row.path → row.isDir = true) →
      ∃ d' ∈ t'.rows, d'.path = d.path ∧ d'.isDir = true := by
    intro d hd hddir hdrow
    by_cases hne : d.path = row.path
    · exact ⟨row, (Partition.get_eq_some_iff.mp h.stored).1, hne.symm, hdrow hne⟩
    · rcases h.others _ hne with ⟨hg, -⟩ | ⟨-, -, -, m₀, hm₀, hg⟩
      · rw [hget hd] at hg
        exact ⟨d, (Partition.get_eq_some_iff.mp hg).1, rfl, hddir⟩
      · exact ⟨_, (Partition.get_eq_some_iff.mp hg).1, Partition.get_path hg, rfl⟩
  refine ⟨fun m hm => ?_, fun m hm hroot => ?_, fun m hm => ?_⟩
  · by_cases hne : m.path = row.path
    · exact hne ▸ hnamed
    · obtain ⟨m₀, hm₀, hp⟩ := hold m hm hne
      exact hp ▸ ht.named m₀ hm₀
  · by_cases hne : m.path = row.path
    · obtain ⟨d, hd, hddir⟩ := habove (hne ▸ hroot)
      obtain ⟨hdt, hdp⟩ := Partition.get_eq_some_iff.mp hd
      obtain ⟨d', hd', hdp', hdir'⟩ := hdirs d hdt hddir fun heq => by
        have := length_parent_lt (p := row.path) (hne ▸ hroot)
        rw [show parent row.path = row.path from hdp.symm.trans heq] at this
        exact absurd this (Nat.lt_irrefl _)
      exact ⟨d', hd', by rw [hdp', hdp, hne], hdir'⟩
    · obtain ⟨m₀, hm₀, hp⟩ := hold m hm hne
      obtain ⟨d, hd, hdp, hddir⟩ := ht.closed m₀ hm₀ (hp ▸ hroot)
      obtain ⟨d', hd', hdp', hdir'⟩ := hdirs d hd hddir fun heq => by
        refine hdir (List.ne_nil_of_mem (a := m₀) (Partition.mem_getChildren.mpr ⟨hget hm₀, ?_⟩))
        exact StoredNode.parentPath_eq_some.mpr ⟨hp ▸ hroot, hdp.symm.trans heq⟩
      exact ⟨d', hd', by rw [hdp', hdp, hp], hdir'⟩
  · by_cases hb : Below m.path row.path ∧ m.path ≠ row.path
    · exact Or.inl (hnode hm (hrefold _ hb.1 hb.2))
    · by_cases hne : m.path = row.path
      · obtain rfl := hself hm hne
        refine hrow.imp (fun hok => hok.of_perm t.nodup rfl rfl ?_) id
        exact (t.kidRefs_perm _).symm.trans (h.kids ▸ t'.kidRefs_perm _)
      · have hk := (h.others _ hne).resolve_right fun hr => hb ⟨hr.1, hne⟩
        obtain ⟨hmt, hperm⟩ := hkept hm hk
        rcases ht.hashed m hmt with hok | ⟨hmdir, hs⟩
        · exact Or.inl (hok.of_perm t.nodup rfl rfl hperm)
        · exact Or.inr ⟨hmdir, (hstale _ hs).resolve_right hb⟩

/-! ## A series of folds -/

/-- Above a row of a Merkle tree there are rows on the way. -/
theorem MerkleTree.kid_towards {t : List StoredNode} (ht : MerkleTree sha256 SUPER_ROOT t)
    (hn : n ∈ t) (hb : Below x n.path) (hne : n.path ≠ x) :
    ∃ m ∈ kids t x, Below m.path n.path := by
  induction hlen : n.path.length using Nat.strong_induction_on generalizing n with
  | _ k ih =>
    rcases hb.cases with h | ⟨hjoin, hpar⟩
    · exact absurd h hne
    · have hroot : n.path ≠ SUPER_ROOT := fun h => by
        have hle := hb.length_le
        rw [h] at hle
        exact hne (h.trans (List.length_eq_zero_iff.mp (Nat.le_zero.mp hle)).symm)
      obtain ⟨d, hd, hdp, -⟩ := ht.closed n hn hroot
      have hdn : Below d.path n.path := hdp ▸ n.below_parent
      by_cases hdx : d.path = x
      · exact ⟨n, mem_kids.mpr ⟨hn, hroot, hdp.symm.trans hdx⟩, Below.refl _⟩
      · have hlt : d.path.length < k := by
          rw [hdp, ← hlen]
          exact length_parent_lt hroot
        obtain ⟨m, hm, hmd⟩ := ih _ hlt hd (hdp ▸ hpar) hdx rfl
        exact ⟨m, hm, hmd.trans hdn⟩

/-- A fold puts a directory at a path, or keeps the one that is there. -/
theorem foldLeaf1_dir (hw : ∀ n, working.get x = some n → n.isDir = true)
    (h : (∃ d, t.get x = some d ∧ d.isDir = true) ∨ (x = p ∧ working.get x ≠ none)) :
    ∃ d, (foldLeaf1 sha256 working t p).get x = some d ∧ d.isDir = true := by
  cases hrow : working.get p with
  | none =>
    rw [foldLeaf1_of_none hrow]
    refine h.resolve_right fun ⟨hx, hne⟩ => hne (hx ▸ hrow)
  | some row =>
    have hspec := foldLeaf1_spec sha256 t hrow
    have hpath := Partition.get_path hrow
    by_cases hx : x = row.path
    · rw [hx, hspec.stored]
      exact ⟨row, rfl, hw row (by rw [hx, hpath, hrow])⟩
    · obtain ⟨d, hd, hdir⟩ := h.resolve_right fun hxp => hx (hxp.1.trans hpath.symm)
      rcases hspec.others x hx with ⟨hg, -⟩ | ⟨-, -, -, m, -, hg⟩
      · exact ⟨d, hg.trans hd, hdir⟩
      · exact ⟨_, hg, rfl⟩

theorem foldRows_dir (hw : ∀ n, working.get x = some n → n.isDir = true)
    (h : (∃ d, b.get x = some d ∧ d.isDir = true) ∨ (x ∈ paths ∧ working.get x ≠ none)) :
    ∃ d, (foldRows sha256 working b paths).get x = some d ∧ d.isDir = true := by
  induction paths generalizing b with
  | nil => exact h.resolve_right fun hx => absurd hx.1 List.not_mem_nil
  | cons p paths ih =>
    refine ih ?_
    by_cases hx : x = p
    · exact Or.inl (foldLeaf1_dir hw (h.imp_right fun hx' => ⟨hx, hx'.2⟩))
    · rcases h with h | ⟨hmem, hne⟩
      · exact Or.inl (foldLeaf1_dir hw (Or.inl h))
      · exact Or.inr ⟨(List.mem_cons.mp hmem).resolve_left hx, hne⟩

/-- A path properly above one that is still to be folded. -/
def Awaits (working : Partition) (rest : List Str) (x : Str) : Prop :=
  ∃ q ∈ rest, working.get q ≠ none ∧ Below x q ∧ x ≠ q

/-- The paths to fold fit a baseline: each row the node has goes into a directory
that the baseline has, or that is folded too; and it has the children that the
baseline has there (none, for a file), or is a directory with another folded row
below it. -/
structure FoldsFit (working b : Partition) (paths : List Str) : Prop where
  above : ∀ p ∈ paths, working.get p ≠ none → p ≠ SUPER_ROOT →
    parentForestPath p ∈ paths ∨
      ∃ d, b.get (parentForestPath p) = some d ∧ d.isDir = true
  below : ∀ p ∈ paths, working.get p ≠ none →
    (b.getChildren p).map childRef = (working.getChildren p).map childRef ∨
      Awaits working paths p

/-- Folding in the order of a report keeps a Merkle tree when the paths fit. -/
theorem foldRows_merkle (hb : MerkleTree sha256 SUPER_ROOT b.rows)
    (hw : MerkleTree sha256 SUPER_ROOT working.rows) (horder : TopDown paths)
    (hfit : FoldsFit working b paths) :
    MerkleTree sha256 SUPER_ROOT (foldRows sha256 working b paths).rows := by
  -- the invariant: after the folds of a first part, what lies above the rest waits
  suffices hinv : ∀ done rest, done ++ rest = paths →
      MerkleBut sha256 (Awaits working rest) (foldRows sha256 working b done) by
    refine (hinv paths [] (List.append_nil _)).merkle ?_
    rintro x ⟨q, hq, -⟩
    exact absurd hq List.not_mem_nil
  intro done
  induction done using List.reverseRecOn with
  | nil => exact fun rest _ => hb.merkleBut _
  | append_singleton done p ih =>
    intro rest hpaths
    rw [List.append_assoc, List.singleton_append] at hpaths
    have ht := ih (p :: rest) hpaths
    have hord : (∀ r ∈ done, ∀ q ∈ p :: rest, ¬ Below q r) ∧ ∀ q ∈ rest, ¬ Below q p := by
      have := List.pairwise_append.mp (hpaths ▸ horder : TopDown (done ++ p :: rest))
      exact ⟨this.2.2, (List.pairwise_cons.mp this.2.1).1⟩
    have hin : p ∈ paths := hpaths ▸ List.mem_append_right _ List.mem_cons_self
    have hlast : foldRows sha256 working b (done ++ [p]) =
        foldLeaf1 sha256 working (foldRows sha256 working b done) p := by
      rw [foldRows, List.foldl_append]
      rfl
    rw [hlast]
    cases hrow : working.get p with
    | none =>
      rw [foldLeaf1_of_none hrow]
      refine ⟨ht.named, ht.closed, fun n hn => (ht.hashed n hn).imp_right ?_⟩
      rintro ⟨hdir, q, hq, h⟩
      exact ⟨hdir, q, (List.mem_cons.mp hq).resolve_left fun heq => h.1 (heq ▸ hrow), h⟩
    | some row =>
      have hsome : working.get p ≠ none := by rw [hrow]; simp
      obtain ⟨hmem, hpath⟩ := Partition.get_eq_some_iff.mp hrow
      have hspec := foldLeaf1_spec sha256 (foldRows sha256 working b done) hrow
      have hkids : (foldRows sha256 working b done).getChildren p = b.getChildren p :=
        foldRows_children fun r hr _ => hord.1 r hr p List.mem_cons_self
      have hisDir : Awaits working paths p → row.isDir = true := by
        rintro ⟨q, -, hqw, hpq, hne⟩
        obtain ⟨n, hn⟩ := Option.ne_none_iff_exists'.mp hqw
        obtain ⟨hnmem, hnq⟩ := Partition.get_eq_some_iff.mp hn
        obtain ⟨m, hm, -⟩ := hw.kid_towards hnmem (x := p) (hnq ▸ hpq) (hnq ▸ hne.symm)
        refine (hw.hash_node hmem fun hnil => ?_).1
        rw [hpath] at hnil
        rw [hnil] at hm
        cases hm
      refine hspec.merkleBut ht ?_ (hw.named row hmem) ?_ ?_ ?_
      · rintro x ⟨q, hq, hqw, hxq, hne⟩
        rcases List.mem_cons.mp hq with rfl | hq
        · exact Or.inr ⟨hpath.symm ▸ hxq, hpath.symm ▸ hne⟩
        · exact Or.inl ⟨q, hq, hqw, hxq, hne⟩
      · intro hroot
        rw [hpath] at hroot ⊢
        obtain ⟨d, hd, hdp, hdir⟩ := hw.closed row hmem (hpath ▸ hroot)
        have hwd : working.get (parentForestPath p) = some d :=
          Partition.get_eq_some_iff.mpr ⟨hd, hdp.trans (congrArg parentForestPath hpath)⟩
        refine foldRows_dir (fun n hn => ?_) ?_
        · rw [hwd] at hn
          exact Option.some.inj hn ▸ hdir
        · refine (hfit.above p hin hsome hroot).symm.imp_right fun hpar => ⟨?_, by rw [hwd]; simp⟩
          -- the parent is not at or after its child in the report
          have hbelow : Below (parentForestPath p) p := hpath ▸ row.below_parent
          rcases List.mem_append.mp (hpaths ▸ hpar) with h | h
          · exact h
          · rcases List.mem_cons.mp h with h | h
            · exact absurd (congrArg List.length h) (Nat.ne_of_lt (length_parent_lt hroot))
            · exact absurd hbelow (hord.2 _ h)
      · rw [hpath]
        rcases hfit.below p hin hsome with hsame | ⟨q, hq, hqw, hpq, hne⟩
        · left
          refine (hw.hashed row hmem).of_perm working.nodup rfl rfl ?_
          rw [hpath]
          refine (working.kidRefs_perm p).symm.trans ?_
          rw [← hsame, ← hkids]
          exact Partition.kidRefs_perm _ p
        · right
          constructor
          · exact hisDir ⟨q, hq, hqw, hpq, hne⟩
          · refine ⟨q, ?_, hqw, hpq, hne⟩
            rcases List.mem_append.mp (hpaths ▸ hq) with h | h
            · exact absurd hpq (hord.1 q h p List.mem_cons_self)
            · exact (List.mem_cons.mp h).resolve_left hne.symm
      · intro hne
        rw [hpath, hkids] at hne
        rcases hfit.below p hin hsome with hsame | hwait
        · refine (hw.hash_node hmem fun hnil => hne ?_).1
          rw [hpath, Partition.kids_eq_nil_iff] at hnil
          rw [hnil] at hsame
          exact List.map_eq_nil_iff.mp hsame
        · exact hisDir hwait

end HomelabMcp.Integrity
