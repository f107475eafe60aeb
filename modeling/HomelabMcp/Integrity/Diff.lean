import HomelabMcp.Integrity.Forest
import Mathlib.Data.List.Dedup
import Mathlib.Data.List.Perm.Basic

/-!
# The tree diff (diff.ts)

`treeDiff` walks two partitions from a root and reports where they differ,
skipping subtrees with equal hashes. The walk is run with as much fuel as the
longest stored path needs.

- `mem_treeDiff`: the reported entries are those of the visited paths.
- `covered_by_diff`: between Merkle trees, every path whose hashes differ lies at
  or below a visited path that is itself reported, or is that path.
-/

namespace HomelabMcp.Integrity

open SlashPath SortKey Text

/-- diff.ts:16. -/
inductive DriftKind
  | added
  | removed
  | changed
  | stateChanged
  deriving DecidableEq, Repr

/-- diff.ts:18. -/
structure DriftEntry where
  path : Str
  kind : DriftKind
  baselineHash : Option Str
  workingHash : Option Str
  baselineState : Option NodeState
  workingState : Option NodeState
  deriving DecidableEq

section

variable (b w : Partition)

/-- What the walk reports at a path before it descends (diff.ts:68). -/
def entryAt (path : Str) : Option DriftEntry :=
  match b.get path, w.get path with
  | none, none => none
  | some bn, none => some ⟨path, .removed, some bn.hash, none, some bn.state, none⟩
  | none, some wn => some ⟨path, .added, none, some wn.hash, none, some wn.state⟩
  | some bn, some wn =>
    if bn.hash = wn.hash then none
    else if (bn.childNames = none ∧ wn.childNames = none) ∨ bn.state ≠ wn.state then
      some ⟨path, if bn.state ≠ wn.state then .stateChanged else .changed,
        some bn.hash, some wn.hash, some bn.state, some wn.state⟩
    else none

/-- Whether the walk goes on below a path: both sides there, hashes different,
and not two file leaves. -/
def descends (path : Str) : Bool :=
  match b.get path, w.get path with
  | some bn, some wn =>
    decide (bn.hash ≠ wn.hash ∧ ¬ (bn.childNames = none ∧ wn.childNames = none))
  | _, _ => false

/-- The names below a path on either side (diff.ts:109). -/
def diffNames (path : Str) : List Str :=
  sortOn nameKey ((b.getChildren path ++ w.getChildren path).map fun c => leafName c.path).dedup

def walk : Nat → Str → List DriftEntry
  | 0, _ => []
  | fuel + 1, path =>
    (entryAt b w path).toList ++
      if descends b w path then (diffNames b w path).flatMap fun name => walk fuel (join path name)
      else []

/-- No stored path is longer. -/
def pathBound : Nat :=
  ((b.rows ++ w.rows).map fun n => n.path.length).foldr max 0

/-- diff.ts:61. -/
def treeDiff (rootPath : Str) : List DriftEntry :=
  walk b w (pathBound b w + 1) rootPath

/-- The paths the walk comes to. -/
inductive Visited (rootPath : Str) : Str → Prop
  | root : Visited rootPath rootPath
  | step {p name : Str} : Visited rootPath p → descends b w p = true → name ∈ diffNames b w p →
      Visited rootPath (join p name)

end

variable {b w : Partition} {root p q : Str} {e : DriftEntry}

/-! ## The walk visits what it should -/

theorem mem_diffNames {name : Str} : name ∈ diffNames b w p ↔
    ∃ c : StoredNode, (b.get c.path = some c ∨ w.get c.path = some c) ∧
      c.parentPath = some p ∧ leafName c.path = name := by
  unfold diffNames
  rw [mem_sortOn, List.mem_dedup, List.mem_map]
  simp only [List.mem_append, Partition.mem_getChildren]
  constructor
  · rintro ⟨c, h | h, hn⟩
    · exact ⟨c, Or.inl h.1, h.2, hn⟩
    · exact ⟨c, Or.inr h.1, h.2, hn⟩
  · rintro ⟨c, h | h, hp, hn⟩
    · exact ⟨c, Or.inl ⟨h, hp⟩, hn⟩
    · exact ⟨c, Or.inr ⟨h, hp⟩, hn⟩

theorem diffNames_noSlash {name : Str} (h : name ∈ diffNames b w p) : '/' ∉ name := by
  obtain ⟨c, -, -, rfl⟩ := mem_diffNames.mp h
  exact slash_notMem_leaf _

theorem length_lt_of_mem_diffNames {name : Str} (h : name ∈ diffNames b w p) :
    p.length < (join p name).length := by
  obtain ⟨c, -, hpar, rfl⟩ := mem_diffNames.mp h
  obtain ⟨hne, hp⟩ := StoredNode.parentPath_eq_some.mp hpar
  rw [← StoredNode.path_of_parent hpar, ← hp]
  exact length_parent_lt hne

theorem entryAt_path (h : entryAt b w p = some e) : e.path = p := by
  unfold entryAt at h
  split at h
  · cases h
  · cases h
    rfl
  · cases h
    rfl
  · split at h
    · cases h
    · split at h
      · cases h
        rfl
      · cases h

/-- Two file leaves with different hashes are reported. -/
theorem entryAt_of_leaves {bn wn : StoredNode} (hb : b.get p = some bn) (hw : w.get p = some wn)
    (hne : bn.hash ≠ wn.hash) (hbn : bn.isDir = false) (hwn : wn.isDir = false) :
    ∃ e, entryAt b w p = some e := by
  have hleaves : bn.childNames = none ∧ wn.childNames = none :=
    ⟨Option.isNone_iff_eq_none.mp (Option.isSome_eq_false_iff.mp hbn),
      Option.isNone_iff_eq_none.mp (Option.isSome_eq_false_iff.mp hwn)⟩
  unfold entryAt
  rw [hb, hw]
  exact ⟨_, (if_neg hne).trans (if_pos (Or.inl hleaves))⟩

theorem entryAt_present (h : entryAt b w p = some e) : b.get p ≠ none ∨ w.get p ≠ none := by
  by_contra hn
  rw [not_or, not_not, not_not] at hn
  unfold entryAt at h
  rw [hn.1, hn.2] at h
  cases h

theorem le_pathBound {n : StoredNode} (h : n ∈ b.rows ∨ n ∈ w.rows) :
    n.path.length ≤ pathBound b w := by
  unfold pathBound
  have hmem : n.path.length ∈ (b.rows ++ w.rows).map fun n => n.path.length :=
    List.mem_map.mpr ⟨n, List.mem_append.mpr h, rfl⟩
  revert hmem
  generalize (b.rows ++ w.rows).map (fun n => n.path.length) = l
  intro hmem
  induction l with
  | nil => cases hmem
  | cons a l ih =>
    rw [List.foldr_cons]
    rcases List.mem_cons.mp hmem with h | h
    · exact h ▸ Nat.le_max_left _ _
    · exact Nat.le_trans (ih h) (Nat.le_max_right _ _)

theorem mem_walk_succ {fuel : Nat} : e ∈ walk b w (fuel + 1) p ↔ entryAt b w p = some e ∨
    (descends b w p = true ∧ ∃ name ∈ diffNames b w p, e ∈ walk b w fuel (join p name)) := by
  rw [walk, List.mem_append, Option.mem_toList]
  refine or_congr Iff.rfl ?_
  split
  · rename_i h
    rw [List.mem_flatMap]
    exact ⟨fun hx => ⟨h, hx⟩, fun hx => hx.2⟩
  · rename_i h
    exact ⟨fun hx => (by cases hx), fun hx => absurd hx.1 h⟩

theorem walk_mono {fuel fuel' : Nat} (hle : fuel ≤ fuel') (h : e ∈ walk b w fuel p) :
    e ∈ walk b w fuel' p := by
  induction fuel generalizing fuel' p with
  | zero => cases h
  | succ fuel ih =>
    obtain ⟨k, rfl⟩ : ∃ k, fuel' = k + 1 := ⟨fuel' - 1, by omega⟩
    rw [mem_walk_succ] at h ⊢
    exact h.imp_right fun ⟨hd, name, hn, hw⟩ => ⟨hd, name, hn, ih (by omega) hw⟩

theorem visited_of_mem_walk {fuel : Nat} (hp : Visited b w root p) (h : e ∈ walk b w fuel p) :
    ∃ q, Visited b w root q ∧ entryAt b w q = some e := by
  induction fuel generalizing p with
  | zero => cases h
  | succ fuel ih =>
    rcases mem_walk_succ.mp h with h | ⟨hd, name, hn, hw⟩
    · exact ⟨p, hp, h⟩
    · exact ih (hp.step hd hn) hw

/-- The walk from a visited path is part of the walk from the root. -/
theorem Visited.walk_subset (hp : Visited b w root p) :
    ∃ k, k + root.length ≤ p.length ∧
      ∀ fuel e, e ∈ walk b w fuel p → e ∈ walk b w (fuel + k) root := by
  induction hp with
  | root => exact ⟨0, by omega, fun _ _ h => h⟩
  | @step p name _ hd hn ih =>
    obtain ⟨k, hk, hsub⟩ := ih
    have hlt := length_lt_of_mem_diffNames hn
    refine ⟨k + 1, by omega, fun fuel e he => ?_⟩
    have := hsub (fuel + 1) e (mem_walk_succ.mpr (Or.inr ⟨hd, name, hn, he⟩))
    rwa [Nat.add_right_comm, Nat.add_assoc] at this

/-- What is reported: the entries of the visited paths. -/
theorem mem_treeDiff : e ∈ treeDiff b w root ↔
    ∃ p, Visited b w root p ∧ entryAt b w p = some e := by
  constructor
  · exact visited_of_mem_walk .root
  · rintro ⟨p, hp, he⟩
    obtain ⟨k, hk, hsub⟩ := hp.walk_subset
    have hlen : p.length ≤ pathBound b w := by
      rcases entryAt_present he with h | h
      all_goals
        obtain ⟨n, hn⟩ := Option.ne_none_iff_exists'.mp h
        obtain ⟨hmem, hpath⟩ := Partition.get_eq_some_iff.mp hn
        rw [← hpath]
      · exact le_pathBound (Or.inl hmem)
      · exact le_pathBound (Or.inr hmem)
    have := hsub 1 e (mem_walk_succ.mpr (Or.inl he))
    exact walk_mono (by omega) this

theorem Visited.below_root (hp : Visited b w root p) : Below root p := by
  induction hp with
  | root => exact Below.refl _
  | step _ _ hn ih => exact ih.join (diffNames_noSlash hn)

theorem descends_iff : descends b w p = true ↔ ∃ bn wn, b.get p = some bn ∧ w.get p = some wn ∧
    bn.hash ≠ wn.hash ∧ (bn.isDir = true ∨ wn.isDir = true) := by
  unfold descends
  cases hb : b.get p with
  | none => simp
  | some bn =>
    cases hw : w.get p with
    | none => simp
    | some wn =>
      simp only [decide_eq_true_eq, Option.some.injEq, exists_and_left, exists_eq_left',
        StoredNode.isDir, Option.isSome_iff_ne_none]
      refine and_congr_right fun _ => ?_
      rw [not_and_or]

/-- A visited path other than the root was reached from its parent. -/
theorem Visited.cases (hp : Visited b w root p) : p = root ∨
    (Visited b w root (parentForestPath p) ∧ descends b w (parentForestPath p) = true ∧
      p ≠ SUPER_ROOT ∧ (b.get p ≠ none ∨ w.get p ≠ none)) := by
  cases hp with
  | root => exact Or.inl rfl
  | @step p name hv hd hn =>
    have hpar : parentForestPath (join p name) = p := parent_join (diffNames_noSlash hn)
    obtain ⟨c, hc, hcp, rfl⟩ := mem_diffNames.mp hn
    refine Or.inr ⟨hpar.symm ▸ hv, hpar.symm ▸ hd, ?_, ?_⟩
    · rw [← StoredNode.path_of_parent hcp]
      exact (StoredNode.parentPath_eq_some.mp hcp).1
    · rw [← StoredNode.path_of_parent hcp]
      exact hc.imp (fun h => by rw [h]; simp) fun h => by rw [h]; simp

/-- A row below a path the walk descends at is visited. -/
theorem Visited.child (hp : Visited b w root p) (hd : descends b w p = true) {c : StoredNode}
    (hc : b.get c.path = some c ∨ w.get c.path = some c) (hpar : c.parentPath = some p) :
    Visited b w root c.path := by
  rw [StoredNode.path_of_parent hpar]
  exact hp.step hd (mem_diffNames.mpr ⟨c, hc, hpar, rfl⟩)

/-! ## The walk depends on the rows alone -/

theorem Partition.rows_perm {t t' : Partition} (h : ∀ p, t.get p = t'.get p) :
    t.rows.Perm t'.rows := by
  refine (List.perm_ext_iff_of_nodup t.nodup.of_map t'.nodup.of_map).mpr fun n => ?_
  have := congrArg (fun o => o = some n) (h n.path)
  simpa only [Partition.get_eq_some_iff, and_true, eq_iff_iff] using this

/-- Partitions that answer alike are compared alike. -/
theorem treeDiff_congr {b' : Partition} (h : ∀ p, b.get p = b'.get p) (w : Partition)
    (root : Str) : treeDiff b w root = treeDiff b' w root := by
  have hbound : pathBound b w = pathBound b' w :=
    ((((Partition.rows_perm h).append_right w.rows).map _).foldr_eq 0)
  have hentry : ∀ p, entryAt b w p = entryAt b' w p := fun p => by
    unfold entryAt
    rw [h p]
  have hdesc : ∀ p, descends b w p = descends b' w p := fun p => by
    unfold descends
    rw [h p]
  have hnames : ∀ p, diffNames b w p = diffNames b' w p := fun p => by
    unfold diffNames
    rw [Partition.getChildren_congr fun n _ => iff_of_eq (congrArg (· = some n) (h n.path))]
  have hwalk : ∀ fuel p, walk b w fuel p = walk b' w fuel p := by
    intro fuel
    induction fuel with
    | zero => exact fun _ => rfl
    | succ fuel ih =>
      intro p
      simp only [walk, hentry, hdesc, hnames, ih]
  rw [treeDiff, treeDiff, hbound, hwalk]

/-! ## Between Merkle trees -/

section

variable {sha256 : Bytes → Bytes}

theorem get_eq_rowAt (t : Partition) (p : Str) : t.get p = rowAt t.rows p := rfl

theorem hashAt_eq_none_iff {t : Partition} : hashAt t.rows p = none ↔ t.get p = none :=
  Option.map_eq_none_iff

theorem entryAt_hash_ne (h : entryAt b w p = some e) : hashAt b.rows p ≠ hashAt w.rows p := by
  intro heq
  rw [hashAt, hashAt, ← get_eq_rowAt, ← get_eq_rowAt] at heq
  unfold entryAt at h
  cases hb : b.get p with
  | none =>
    cases hw : w.get p with
    | none => simp [hb, hw] at h
    | some wn => simp [hb, hw] at heq
  | some bn =>
    cases hw : w.get p with
    | none => simp [hb, hw] at heq
    | some wn =>
      have hhash : bn.hash = wn.hash := by simpa [hb, hw] using heq
      simp [hb, hw, hhash] at h

/-- A comparison by hashes reaches only paths that the walk visits. -/
theorem visited_of_reached (hb : MerkleTree sha256 SUPER_ROOT b.rows)
    (hw : MerkleTree sha256 SUPER_ROOT w.rows)
    (h : PrunedDiff.Reached child (hashAt b.rows) (hashAt w.rows) root p)
    (hp : b.get p ≠ none ∨ w.get p ≠ none) : Visited b w root p := by
  induction h with
  | root => exact .root
  | @step p s _ hbp hwp hne ih =>
    rw [ne_eq, hashAt_eq_none_iff] at hbp hwp
    have hv := ih (Or.inl hbp)
    by_cases hroot : Integrity.child p s = SUPER_ROOT
    · have hpnil : p = [] := by
        by_contra h
        exact join_ne_nil (Or.inl h) hroot
      rw [hpnil] at hv
      rwa [hroot]
    · have hpar : ∀ c : StoredNode, c.path = Integrity.child p s → c.parentPath = some p :=
        fun c hc => StoredNode.parentPath_eq_some.mpr ⟨hc ▸ hroot, by
          rw [hc]
          exact parent_join s.2⟩
      obtain ⟨bn, hbn⟩ := Option.ne_none_iff_exists'.mp hbp
      obtain ⟨wn, hwn⟩ := Option.ne_none_iff_exists'.mp hwp
      have hhash : bn.hash ≠ wn.hash := fun heq => hne (by
        rw [hashAt, hashAt, ← get_eq_rowAt, ← get_eq_rowAt, hbn, hwn, Option.map_some,
          Option.map_some, heq])
      have hdir : ∀ (t : Partition) (n : StoredNode), MerkleTree sha256 SUPER_ROOT t.rows →
          t.get p = some n → t.get (Integrity.child p s) ≠ none → n.isDir = true := by
        intro t n ht hn hc
        obtain ⟨c, hc⟩ := Option.ne_none_iff_exists'.mp hc
        obtain ⟨hmem, hcp⟩ := Partition.get_eq_some_iff.mp hc
        obtain ⟨d, hd, hdp, hddir⟩ := ht.closed c hmem (hcp ▸ hroot)
        have hdn : t.get p = some d := Partition.get_eq_some_iff.mpr ⟨hd, by
          rw [hdp, hcp]
          exact parent_join s.2⟩
        rw [hn] at hdn
        exact Option.some.inj hdn ▸ hddir
      have hdesc : descends b w p = true := descends_iff.mpr ⟨bn, wn, hbn, hwn, hhash,
        hp.imp (hdir b bn hb hbn) (hdir w wn hw hwn)⟩
      rcases hp with hc | hc
      all_goals
        obtain ⟨c, hc⟩ := Option.ne_none_iff_exists'.mp hc
        have hcp := Partition.get_path hc
        rw [← hcp] at hc ⊢
      · exact hv.child hdesc (Or.inl hc) (hpar c hcp)
      · exact hv.child hdesc (Or.inr hc) (hpar c hcp)

/-- Every difference between two Merkle trees lies at or below a visited path
where they differ: the difference itself, or a path one side does not have. -/
theorem covered_by_diff (hsha : Digest.CollisionFree sha256)
    (hb : MerkleTree sha256 SUPER_ROOT b.rows) (hw : MerkleTree sha256 SUPER_ROOT w.rows)
    (hq : Below root q) (hne : hashAt b.rows q ≠ hashAt w.rows q) :
    ∃ p, Visited b w root p ∧ Below p q ∧ hashAt b.rows p ≠ hashAt w.rows p ∧
      (p = q ∨ b.get p = none ∨ w.get p = none) := by
  obtain ⟨names, rfl⟩ := below_iff_segments.mp hq
  obtain ⟨front, back, rfl, hreach, hdiff, hend⟩ := PrunedDiff.covered (hb.determined hsha hw)
    hb.closed_hashAt hw.closed_hashAt hne
  refine ⟨front.foldl child root, ?_, ?_, hdiff, ?_⟩
  · refine visited_of_reached hb hw hreach ?_
    by_contra hn
    rw [not_or, not_not, not_not, ← hashAt_eq_none_iff, ← hashAt_eq_none_iff] at hn
    exact hdiff (hn.1.trans hn.2.symm)
  · rw [List.foldl_append]
    exact below_iff_segments.mpr ⟨back, rfl⟩
  · rcases hend with h | h | h
    · rw [h, List.append_nil]
      exact Or.inl rfl
    · exact Or.inr (Or.inl (hashAt_eq_none_iff.mp h))
    · exact Or.inr (Or.inr (hashAt_eq_none_iff.mp h))

/-- A path that both Merkle trees have, with different hashes, is visited. -/
theorem visited_of_differ (hsha : Digest.CollisionFree sha256)
    (hb : MerkleTree sha256 SUPER_ROOT b.rows) (hw : MerkleTree sha256 SUPER_ROOT w.rows)
    (hq : Below root q) (hne : hashAt b.rows q ≠ hashAt w.rows q) (hbq : b.get q ≠ none)
    (hwq : w.get q ≠ none) : Visited b w root q := by
  obtain ⟨p, hv, hpq, -, h | h | h⟩ := covered_by_diff hsha hb hw hq hne
  · exact h ▸ hv
  · exact absurd (hashAt_eq_none_iff.mpr h) (hb.present_above hpq (mt hashAt_eq_none_iff.mp hbq))
  · exact absurd (hashAt_eq_none_iff.mpr h) (hw.present_above hpq (mt hashAt_eq_none_iff.mp hwq))

end

end HomelabMcp.Integrity
