import HomelabMcp.Integrity.Passes

/-!
# What a comparison of two forests says (diff.ts)

Between two assembled forests the differ reports every file that came, went or
changed, at its path or at a directory that came or went as a whole. Two things
it passes over: a file that became a directory (or the other way) without a
change of state, and a directory whose state changed under an equal hash, as
that of a guest that stopped.

- `Assembled.merkle`: an assembled forest is a Merkle tree.
- `treeDiff_sound_complete`: what is reported, and what an empty report means.
-/

namespace HomelabMcp.Integrity

open SlashPath SortKey Text

/-- A forest as one pass assembles it: readings of trees, from distinct sources,
over a baseline that is a Merkle tree. -/
structure Assembled (E : Env) (level : Level) (nodes : List StoredNode) : Prop where
  assembled : ∃ (baseline : Partition) (readings : List Reading),
    MerkleTree E.sha256 SUPER_ROOT baseline.rows ∧ (readings.map (·.source)).Nodup ∧
      (∀ r ∈ readings, r.Sound) ∧
        nodes = assembleForest E level (baseline.allUnder E.under) readings

theorem Assembled.merkle {E : Env} {level : Level} {nodes : List StoredNode}
    (h : Assembled E level nodes) : MerkleTree E.sha256 SUPER_ROOT nodes := by
  obtain ⟨baseline, readings, hb, hnd, hsound, rfl⟩ := h.assembled
  exact assembleForest_merkle hb hnd hsound

/-- The state of the directory at a path. -/
def dirStateAt (t : Partition) (p : Str) : Option NodeState :=
  (t.get p).bind fun n => if n.isDir then some n.state else none

/-- A path is a file in one of the forests at least, and is not there in the
other, or is a directory there, or has another hash. -/
def FileDiffers (b w : Partition) (p : Str) : Prop :=
  fileHashAt b p ≠ fileHashAt w p

/-- A path is a directory in one of the forests at least, and is not there in the
other, or is a file there, or has another state. -/
def DirDiffers (b w : Partition) (p : Str) : Prop :=
  dirStateAt b p ≠ dirStateAt w p

/-- An entry speaks for a path: its own, or one of a subtree that came or went. -/
def DriftEntry.Covers (e : DriftEntry) (p : Str) : Prop :=
  e.path = p ∨ (Below e.path p ∧ (e.kind = .added ∨ e.kind = .removed))

/-- Differences that the differ passes over: a file in one forest and a directory in
the other, with the same state or the same hash; and a directory in both, with
different states under the same hash. -/
structure PassedOver (b w : Partition) (p : Str) (bn wn : StoredNode) : Prop where
  left : b.get p = some bn
  right : w.get p = some wn
  why : (bn.isDir ≠ wn.isDir ∧ (bn.state = wn.state ∨ bn.hash = wn.hash)) ∨
    (bn.isDir = true ∧ wn.isDir = true ∧ bn.hash = wn.hash)

/-- What the result of a comparison promises. -/
structure SoundComplete (b w : Partition) (passedOver : Str → Prop) : Prop where
  covered : ∀ p, FileDiffers b w p → passedOver p ∨ ∃ e ∈ treeDiff b w SUPER_ROOT, e.Covers p
  reported : ∀ e ∈ treeDiff b w SUPER_ROOT,
    ∃ p, Below e.path p ∧ (FileDiffers b w p ∨ DirDiffers b w p)
  unchanged : (∀ p, ¬ FileDiffers b w p ∧ ¬ DirDiffers b w p) → treeDiff b w SUPER_ROOT = []
  empty : treeDiff b w SUPER_ROOT = [] →
    ∀ p, FileDiffers b w p ∨ DirDiffers b w p → passedOver p

section

variable {sha256 : Bytes → Bytes} {b w : Partition} {p : Str} {bn wn : StoredNode}

theorem fileHashAt_none (h : b.get p = none) : fileHashAt b p = none := by
  rw [fileHashAt, h, Option.bind_none]

theorem fileHashAt_some (h : b.get p = some bn) :
    fileHashAt b p = if bn.isDir then none else some bn.hash := by
  rw [fileHashAt, h, Option.bind_some]

theorem dirStateAt_none (h : b.get p = none) : dirStateAt b p = none := by
  rw [dirStateAt, h, Option.bind_none]

theorem dirStateAt_some (h : b.get p = some bn) :
    dirStateAt b p = if bn.isDir then some bn.state else none := by
  rw [dirStateAt, h, Option.bind_some]

theorem hashAt_some (h : b.get p = some bn) : hashAt b.rows p = some bn.hash := by
  rw [hashAt, ← get_eq_rowAt, h, Option.map_some]

/-- Where one side has nothing, the walk reports the other as a whole. -/
theorem entryAt_missing (hne : hashAt b.rows p ≠ hashAt w.rows p)
    (h : b.get p = none ∨ w.get p = none) :
    ∃ e, entryAt b w p = some e ∧ (e.kind = .added ∨ e.kind = .removed) := by
  unfold entryAt
  cases hb : b.get p with
  | none =>
    cases hw : w.get p with
    | none => exact absurd ((hashAt_eq_none_iff.mpr hb).trans (hashAt_eq_none_iff.mpr hw).symm) hne
    | some wn => exact ⟨_, rfl, Or.inl rfl⟩
  | some bn =>
    cases hw : w.get p with
    | none => exact ⟨_, rfl, Or.inr rfl⟩
    | some wn =>
      rw [hb, hw] at h
      rcases h with h | h <;> cases h

/-- A row that one side does not have is covered. -/
theorem covered_of_missing (hsha : Digest.CollisionFree sha256)
    (hb : MerkleTree sha256 SUPER_ROOT b.rows) (hw : MerkleTree sha256 SUPER_ROOT w.rows)
    (hne : hashAt b.rows p ≠ hashAt w.rows p) (h : b.get p = none ∨ w.get p = none) :
    ∃ e ∈ treeDiff b w SUPER_ROOT, e.Covers p := by
  have hroot : Below SUPER_ROOT p := by
    have hsome : b.get p ≠ none ∨ w.get p ≠ none := by
      by_contra hn
      rw [not_or, not_not, not_not] at hn
      exact hne ((hashAt_eq_none_iff.mpr hn.1).trans (hashAt_eq_none_iff.mpr hn.2).symm)
    rcases hsome with hs | hs
    all_goals
      obtain ⟨n, hn⟩ := Option.ne_none_iff_exists'.mp hs
      rw [← Partition.get_path hn]
      exact below_root n.rooted.head
  obtain ⟨q, hv, hqp, hdiff, hend⟩ := covered_by_diff hsha hb hw hroot hne
  have hmissing : b.get q = none ∨ w.get q = none := by
    rcases hend with rfl | hq | hq
    · exact h
    · exact Or.inl hq
    · exact Or.inr hq
  obtain ⟨e, he, hkind⟩ := entryAt_missing hdiff hmissing
  refine ⟨e, mem_treeDiff.mpr ⟨q, hv, he⟩, Or.inr ⟨?_, hkind⟩⟩
  rwa [entryAt_path he]

/-- Two rows with different hashes are reported when both are files or their states
differ. -/
theorem covered_of_rows (hsha : Digest.CollisionFree sha256)
    (hb : MerkleTree sha256 SUPER_ROOT b.rows) (hw : MerkleTree sha256 SUPER_ROOT w.rows)
    (hbp : b.get p = some bn) (hwp : w.get p = some wn) (hhash : bn.hash ≠ wn.hash)
    (h : (bn.isDir = false ∧ wn.isDir = false) ∨ bn.state ≠ wn.state) :
    ∃ e ∈ treeDiff b w SUPER_ROOT, e.Covers p := by
  have hv : Visited b w SUPER_ROOT p := by
    refine visited_of_differ hsha hb hw ?_ ?_ (by rw [hbp]; simp) (by rw [hwp]; simp)
    · rw [← Partition.get_path hbp]
      exact below_root bn.rooted.head
    · rw [hashAt_some hbp, hashAt_some hwp]
      exact fun heq => hhash (Option.some.inj heq)
  have hentry : ∃ e, entryAt b w p = some e := by
    rcases h with ⟨hbn, hwn⟩ | hstate
    · exact entryAt_of_leaves hbp hwp hhash hbn hwn
    · unfold entryAt
      rw [hbp, hwp]
      exact ⟨_, (if_neg hhash).trans (if_pos (Or.inr hstate))⟩
  obtain ⟨e, he⟩ := hentry
  exact ⟨e, mem_treeDiff.mpr ⟨p, hv, he⟩, Or.inl (entryAt_path he)⟩

theorem file_covered (hsha : Digest.CollisionFree sha256)
    (hb : MerkleTree sha256 SUPER_ROOT b.rows) (hw : MerkleTree sha256 SUPER_ROOT w.rows)
    (h : FileDiffers b w p) :
    (∃ bn wn, PassedOver b w p bn wn) ∨ ∃ e ∈ treeDiff b w SUPER_ROOT, e.Covers p := by
  unfold FileDiffers at h
  cases hbp : b.get p with
  | none =>
    rw [fileHashAt_none hbp] at h
    cases hwp : w.get p with
    | none => exact absurd (fileHashAt_none hwp).symm h
    | some wn =>
      refine Or.inr (covered_of_missing hsha hb hw ?_ (Or.inl hbp))
      rw [hashAt_eq_none_iff.mpr hbp, hashAt_some hwp]
      simp
  | some bn =>
    cases hwp : w.get p with
    | none =>
      refine Or.inr (covered_of_missing hsha hb hw ?_ (Or.inr hwp))
      rw [hashAt_eq_none_iff.mpr hwp, hashAt_some hbp]
      simp
    | some wn =>
      by_cases hkind : bn.isDir = wn.isDir
      · -- both are files, since two directories have no file hash to differ in
        rw [fileHashAt_some hbp, fileHashAt_some hwp, hkind] at h
        cases hwn : wn.isDir with
        | true =>
          rw [hwn] at h
          exact absurd rfl h
        | false =>
          rw [hwn] at h
          exact Or.inr (covered_of_rows hsha hb hw hbp hwp (fun heq => h (congrArg some heq))
            (Or.inl ⟨hkind.trans hwn, hwn⟩))
      · by_cases hquiet : bn.state = wn.state ∨ bn.hash = wn.hash
        · exact Or.inl ⟨bn, wn, hbp, hwp, Or.inl ⟨hkind, hquiet⟩⟩
        · rw [not_or] at hquiet
          exact Or.inr (covered_of_rows hsha hb hw hbp hwp hquiet.2 (Or.inr hquiet.1))

theorem dir_covered (hsha : Digest.CollisionFree sha256)
    (hb : MerkleTree sha256 SUPER_ROOT b.rows) (hw : MerkleTree sha256 SUPER_ROOT w.rows)
    (h : DirDiffers b w p) :
    (∃ bn wn, PassedOver b w p bn wn) ∨ ∃ e ∈ treeDiff b w SUPER_ROOT, e.Covers p := by
  unfold DirDiffers at h
  by_cases hfile : FileDiffers b w p
  · exact file_covered hsha hb hw hfile
  · unfold FileDiffers at hfile
    rw [not_not] at hfile
    cases hbp : b.get p with
    | none =>
      cases hwp : w.get p with
      | none => exact absurd ((dirStateAt_none hbp).trans (dirStateAt_none hwp).symm) h
      | some wn =>
        refine Or.inr (covered_of_missing hsha hb hw ?_ (Or.inl hbp))
        rw [hashAt_eq_none_iff.mpr hbp, hashAt_some hwp]
        simp
    | some bn =>
      cases hwp : w.get p with
      | none =>
        refine Or.inr (covered_of_missing hsha hb hw ?_ (Or.inr hwp))
        rw [hashAt_eq_none_iff.mpr hwp, hashAt_some hbp]
        simp
      | some wn =>
        rw [dirStateAt_some hbp, dirStateAt_some hwp] at h
        rw [fileHashAt_some hbp, fileHashAt_some hwp] at hfile
        cases hbn : bn.isDir <;> cases hwn : wn.isDir <;> rw [hbn, hwn] at h hfile
        · exact absurd rfl h
        · cases hfile
        · cases hfile
        · have hstate : bn.state ≠ wn.state := fun heq => h (congrArg some heq)
          by_cases hhash : bn.hash = wn.hash
          · exact Or.inl ⟨bn, wn, hbp, hwp, Or.inr ⟨hbn, hwn, hhash⟩⟩
          · exact Or.inr (covered_of_rows hsha hb hw hbp hwp hhash (Or.inr hstate))

/-- An entry of the walk stands where something differs. -/
theorem entryAt_differs {e : DriftEntry} (h : entryAt b w p = some e) :
    FileDiffers b w p ∨ DirDiffers b w p := by
  unfold entryAt at h
  cases hbp : b.get p with
  | none =>
    rw [FileDiffers, DirDiffers, fileHashAt_none hbp, dirStateAt_none hbp]
    cases hwp : w.get p with
    | none =>
      rw [hbp, hwp] at h
      cases h
    | some wn =>
      rw [fileHashAt_some hwp, dirStateAt_some hwp]
      cases wn.isDir <;> simp
  | some bn =>
    rw [FileDiffers, DirDiffers, fileHashAt_some hbp, dirStateAt_some hbp]
    cases hwp : w.get p with
    | none =>
      rw [fileHashAt_none hwp, dirStateAt_none hwp]
      cases bn.isDir <;> simp
    | some wn =>
      rw [hbp, hwp] at h
      rw [fileHashAt_some hwp, dirStateAt_some hwp]
      dsimp only at h
      split at h
      · cases h
      · rename_i hhash
        split at h
        · rename_i hwhy
          rcases hwhy with ⟨hbn, hwn⟩ | hstate
          · left
            simp [StoredNode.isDir, hbn, hwn, hhash]
          · cases bn.isDir <;> cases wn.isDir <;> simp [hhash, hstate]
        · cases h

/-- Between Merkle trees the differ passes over nothing else. -/
theorem soundComplete_of_merkle (hsha : Digest.CollisionFree sha256)
    (hb : MerkleTree sha256 SUPER_ROOT b.rows) (hw : MerkleTree sha256 SUPER_ROOT w.rows) :
    SoundComplete b w fun p => ∃ bn wn, PassedOver b w p bn wn := by
  have hreported : ∀ e ∈ treeDiff b w SUPER_ROOT,
      ∃ p, Below e.path p ∧ (FileDiffers b w p ∨ DirDiffers b w p) := by
    intro e he
    obtain ⟨p, -, hp⟩ := mem_treeDiff.mp he
    exact ⟨p, entryAt_path hp ▸ Below.refl _, entryAt_differs hp⟩
  refine ⟨fun p => file_covered hsha hb hw, hreported, fun hsame => ?_, fun hnil p hp => ?_⟩
  · by_contra hne
    obtain ⟨e, he⟩ := List.exists_mem_of_ne_nil _ hne
    obtain ⟨p, -, hp⟩ := hreported e he
    exact hp.elim (hsame p).1 (hsame p).2
  · refine (hp.elim (file_covered hsha hb hw) (dir_covered hsha hb hw)).resolve_right ?_
    rintro ⟨e, he, -⟩
    rw [hnil] at he
    cases he

end

/-- What a comparison of two assembled forests promises. -/
theorem treeDiff_sound_complete {E : Env} (hsha : Digest.CollisionFree E.sha256) {level : Level}
    {b w : List StoredNode} (hb : Assembled E level b) (hw : Assembled E level w) :
    SoundComplete (.ofNodes b) (.ofNodes w)
      fun p => ∃ bn wn, PassedOver (.ofNodes b) (.ofNodes w) p bn wn := by
  have hbm := hb.merkle
  have hwm := hw.merkle
  refine soundComplete_of_merkle hsha ?_ ?_
  · rwa [Partition.ofNodes_rows hbm.nodup]
  · rwa [Partition.ofNodes_rows hwm.nodup]

/-! ## The differences passed over -/

/-- What a source reads when its files are the given ones. -/
def Reading.ofFiles (src : SubtreeSource) (entries : List FsEntry) : Reading :=
  ⟨src, some (parseForestEnumeration (entries.flatMap (·.enumLine)), [])⟩

def assembleSample (baseline : List StoredNode) (readings : List Reading) : List StoredNode :=
  assembleForest .sample .l1 ((Partition.ofNodes baseline).allUnder Env.sample.under) readings

theorem Reading.Sound.stopped (src : SubtreeSource) : (Reading.mk src none).Sound :=
  ⟨fun _ _ h => (by cases h), fun _ _ h => (by cases h)⟩

theorem Reading.Sound.ofFiles {src : SubtreeSource} {entries : List FsEntry}
    (h : TreeShaped src (parseForestEnumeration (entries.flatMap (·.enumLine)))) :
    (Reading.ofFiles src entries).Sound := by
  constructor
  · intro enumerated hashes heq
    obtain ⟨rfl, rfl⟩ := Prod.mk.inj (Option.some.inj heq)
    exact h
  · intro enumerated hashes heq
    obtain ⟨rfl, rfl⟩ := Prod.mk.inj (Option.some.inj heq)
    exact fun e he => parseForestEnumeration_present he

theorem Assembled.sample {baseline : List StoredNode} {readings : List Reading}
    (hb : MerkleTree Env.sample.sha256 SUPER_ROOT baseline)
    (hnd : (readings.map (·.source)).Nodup) (hsound : ∀ r ∈ readings, r.Sound) :
    Assembled .sample .l1 (assembleSample baseline readings) := by
  refine ⟨.ofNodes baseline, readings, ?_, hnd, hsound, rfl⟩
  rwa [Partition.ofNodes_rows hb.nodup]

/-- The host when `/etc/app` is a file, and when it is a directory. -/
def fileApp : Reading := .ofFiles .host [.dir "/etc", .file "/etc/app" "1.0" 'a']

def dirApp : Reading :=
  .ofFiles .host [.dir "/etc", .dir "/etc/app", .file "/etc/app/conf" "1.0" 'a']

/-- A guest, running and stopped. -/
def guestUp : Reading :=
  .ofFiles (.container 101) [.dir "/etc", .file "/etc/motd" "1.0" 'a']

def guestDown : Reading := ⟨.container 101, none⟩

theorem fileApp_sound : fileApp.Sound :=
  .ofFiles (.of_listing (by decide +kernel) (by decide +kernel))

theorem dirApp_sound : dirApp.Sound :=
  .ofFiles (.of_listing (by decide +kernel) (by decide +kernel))

theorem guestUp_sound : guestUp.Sound :=
  .ofFiles (.of_listing (by decide +kernel) (by decide +kernel))

theorem assembled_fileApp : Assembled .sample .l1 (assembleSample [] [fileApp]) :=
  .sample (merkleTree_nil _) (by simp) (by simpa using fileApp_sound)

theorem assembled_dirApp : Assembled .sample .l1 (assembleSample [] [dirApp]) :=
  .sample (merkleTree_nil _) (by simp) (by simpa using dirApp_sound)

theorem assembled_guestUp : Assembled .sample .l1 (assembleSample [] [fileApp, guestUp]) :=
  .sample (merkleTree_nil _) (by decide +kernel)
    (by simpa using ⟨fileApp_sound, guestUp_sound⟩)

theorem assembled_guestDown : Assembled .sample .l1
    (assembleSample (assembleSample [] [fileApp, guestUp]) [fileApp, guestDown]) :=
  .sample assembled_guestUp.merkle (by decide +kernel)
    (by simpa using ⟨fileApp_sound, Reading.Sound.stopped _⟩)

theorem treeDiff_sound_complete_app :
    SoundComplete (.ofNodes (assembleSample [] [fileApp])) (.ofNodes (assembleSample [] [dirApp]))
      fun p => ∃ bn wn, PassedOver (.ofNodes (assembleSample [] [fileApp]))
        (.ofNodes (assembleSample [] [dirApp])) p bn wn :=
  treeDiff_sound_complete Digest.lengthPrefixed_collisionFree assembled_fileApp assembled_dirApp

/-- A file that becomes a directory is not reported itself, only what is in it; and
a guest that stops changes the state of its root under an unchanged hash. -/
theorem treeDiff_not_complete :
    (¬ ∀ (b w : List StoredNode), Assembled .sample .l1 b → Assembled .sample .l1 w →
      ∀ p, FileDiffers (.ofNodes b) (.ofNodes w) p →
        ∃ e ∈ treeDiff (.ofNodes b) (.ofNodes w) SUPER_ROOT, e.Covers p) ∧
      ¬ ∀ (b w : List StoredNode), Assembled .sample .l1 b → Assembled .sample .l1 w →
        treeDiff (.ofNodes b) (.ofNodes w) SUPER_ROOT = [] →
          ∀ p, ¬ DirDiffers (.ofNodes b) (.ofNodes w) p := by
  constructor
  · intro h
    have hlong : ∀ e ∈ treeDiff (.ofNodes (assembleSample [] [fileApp]))
        (.ofNodes (assembleSample [] [dirApp])) SUPER_ROOT,
        "host/etc/app".toList.length < e.path.length := by decide +kernel
    obtain ⟨e, he, hcov⟩ := h _ _ assembled_fileApp assembled_dirApp "host/etc/app".toList
      (by unfold FileDiffers; decide +kernel)
    have hlt := hlong e he
    rcases hcov with hp | ⟨hb, -⟩
    · rw [hp] at hlt
      exact Nat.lt_irrefl _ hlt
    · exact absurd hb.length_le (Nat.not_le.mpr hlt)
  · intro h
    exact h _ _ assembled_guestUp assembled_guestDown (by decide +kernel) "pct/101".toList
      (by unfold DirDiffers; decide +kernel)

end HomelabMcp.Integrity
