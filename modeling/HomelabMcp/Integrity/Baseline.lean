import HomelabMcp.Integrity.AcceptTruth
import HomelabMcp.Integrity.FoldMerkle

/-!
# The baselines over whole runs

Four operations write baselines: `computeTree` and seeding replace a partition,
accept-truth promotes a scope of one, and auto-accept folds single rows into it.
Whole replacements and folds that fit keep every baseline a Merkle tree; a scope
is promoted without refolding what lies above it, so that is kept only when the
hashes at the top of the scope were right already.

- `EngineOp.run_merkle`: what one operation keeps.
- `run_baseline_sound`: what every run keeps, and what the differ may rely on.
-/

namespace HomelabMcp.Integrity

open SlashPath SortKey Text Effect

/-! ## What each writer keeps -/

/-- Every baseline is a Merkle tree. -/
def Store.Merkle (sha256 : Bytes → Bytes) (st : Store) : Prop :=
  ∀ l, MerkleTree sha256 SUPER_ROOT (st.part .baseline l).rows

theorem storeScopeOf_ne_nil (scope : Str) : storeScopeOf scope ≠ [] := by
  unfold storeScopeOf
  split
  · simp
  · assumption

section

variable {E : Env} {w : World} {s : EngineState}

/-- A pass over a node that describes trees shows a Merkle tree. -/
theorem mem_passes_merkle (hw : w.DescribesTrees E.cfg) (hst : s.store.Merkle E.sha256)
    {ls : List Level} {k : Nat} {l : Level} {nodes : List StoredNode}
    (h : (l, nodes) ∈ (passes E w s.store ls k).rows) :
    MerkleTree E.sha256 SUPER_ROOT nodes := by
  obtain ⟨-, j, j', hpass⟩ := mem_passes E w h
  exact computeForestNodes_merkle hw (hst l) hpass

theorem passes_at_merkle (hw : w.DescribesTrees E.cfg) (hst : s.store.Merkle E.sha256)
    (ls : List Level) (k : Nat) (l : Level) :
    MerkleTree E.sha256 SUPER_ROOT ((passes E w s.store ls k).at l).rows := by
  unfold Shown.at
  cases hlook : KeyedList.lookup Prod.fst l (passes E w s.store ls k).rows with
  | none => exact merkleTree_nil E.sha256
  | some r =>
    have hmerkle := mem_passes_merkle hw hst (KeyedList.mem_of_lookup hlook)
    show MerkleTree E.sha256 SUPER_ROOT (Partition.ofNodes r.2).rows
    rwa [Partition.ofNodes_rows hmerkle.nodup]

theorem Store.Merkle.of_keeps {t : EngineState} (hst : s.store.Merkle E.sha256)
    (h : KeepsBaselines s t) : t.store.Merkle E.sha256 := fun l => by
  rw [h.part]
  exact hst l

/-- Seeding replaces whole partitions by passes. -/
theorem seeded_merkle (hw : w.DescribesTrees E.cfg) (hst : s.store.Merkle E.sha256)
    (level : VerifyLevel) :
    (afterPasses (landSeed E) (seedShown E w level s) s).store.Merkle E.sha256 := by
  intro l
  rw [seeded_part]
  cases hlook : KeyedList.lookup Prod.fst l (seedShown E w level s).rows with
  | none => exact hst l
  | some r =>
    have hmerkle := mem_passes_merkle hw hst (KeyedList.mem_of_lookup hlook)
    show MerkleTree E.sha256 SUPER_ROOT (Partition.ofNodes r.2).rows
    rwa [Partition.ofNodes_rows hmerkle.nodup]

theorem computeTree_merkle (hw : w.DescribesTrees E.cfg) (hst : s.store.Merkle E.sha256)
    (l : Level) (tree : TreeKind) :
    (after (computeTree E w l tree) s).store.Merkle E.sha256 := by
  unfold computeTree
  cases hpass : computeForestNodes E w s.store l s.calls with
  | error e k =>
    rw [after_bind_of_error (freshNodes_error E w hpass)]
    exact hst
  | ok nodes k =>
    have hmerkle := computeForestNodes_merkle hw (hst l) hpass
    rw [after_bind_of_ok (freshNodes_ok E w hpass)]
    intro l'
    show MerkleTree E.sha256 SUPER_ROOT
      ((s.store.replaceSubtree E.under tree l ['/'] nodes).part .baseline l').rows
    rw [Store.replaceSubtree, Store.part_setPart, Partition.replaceSubtree_whole E.laws]
    split
    · rwa [Partition.ofNodes_rows hmerkle.nodup]
    · exact hst l'

/-- At the top of the scope the pass shows the hashes that the baseline has. -/
def BoundaryKept (E : Env) (scope : Str) (b : Partition) (nodes : List StoredNode) : Prop :=
  ∀ p, E.under p scope = true → E.under (parentForestPath p) scope = false →
    hashAt b.rows p = hashAt nodes p

/-- Promoting a scope keeps the tree when nothing changes at its top. -/
theorem promoted_merkle {b : Partition} {nodes : List StoredNode} {scope : Str}
    (hscope : scope ≠ []) (hb : MerkleTree E.sha256 SUPER_ROOT b.rows)
    (hnodes : MerkleTree E.sha256 SUPER_ROOT nodes) (h : BoundaryKept E scope b nodes) :
    MerkleTree E.sha256 SUPER_ROOT (promoted E scope nodes b).rows := by
  have hget := fun p => get_promoted E scope nodes b p
  simp only [get_eq_rowAt, Partition.ofNodes_rows hnodes.nodup] at hget
  refine hb.patch (fun p => E.under p scope = true) hnodes (promoted E scope nodes b).nodup
    (fun p hp => (hget p).trans (if_pos hp)) (fun p hp => (hget p).trans (if_neg hp)) ?_ ?_
  · intro n hne hpar
    by_cases hroot : parentForestPath n.path = SUPER_ROOT
    · rw [E.laws.root scope hscope (hroot ▸ hpar)]
      exact E.laws.whole n.path
    · rw [n.path_eq_join]
      exact E.laws.down _ _ scope hscope hroot hpar
  · intro p hp hpar
    exact h p hp (Bool.eq_false_iff.mpr hpar)

end

/-! ## Runs -/

/-- The operations that work on the store. -/
inductive EngineOp
  | computeTree (level : Level) (tree : TreeKind)
  | verify (level : VerifyLevel) (scope : Str)
  | acceptTruth (scope : Str)
  | autoAccept (level : VerifyLevel) (scope : Str)

/-- The state after an operation, whether it returned or threw. -/
def EngineOp.run (E : Env) (w : World) (s : EngineState) : EngineOp → EngineState
  | .computeTree level tree => after (Integrity.computeTree E w level tree) s
  | .verify level scope => after (Integrity.verify E w level scope) s
  | .acceptTruth scope => after (Integrity.acceptTruth E w scope) s
  | .autoAccept level scope => after (Integrity.autoAccept E w level scope) s

/-- What an operation changes below a path it also accounts for above: accept-truth
changes nothing at the top of its scope, and what auto-accept folds fits the
baselines. -/
def EngineOp.Accounts (E : Env) (w : World) (s : EngineState) : EngineOp → Prop
  | .computeTree _ _ => True
  | .verify _ _ => True
  | .acceptTruth scope => ∀ r ∈ (acceptShown E w s).rows,
      BoundaryKept E (storeScopeOf scope) (s.store.part .baseline r.1) r.2
  | .autoAccept level scope => ¬ Seeds E level s.store → ∀ l ∈ level.levels,
      FoldsFit ((secondShown E w level scope s).at l) (s.store.part .baseline l)
        (foldedPaths (runPolicy E w level scope s))

/-- The states that runs reach from an empty store: before each operation the node
may be in any state, and the log may have grown. -/
inductive Run (E : Env) (ok : World → EngineState → EngineOp → Prop) : EngineState → Prop
  | init : Run E ok .init
  | logged {s : EngineState} (audit : List AuditRecord) : Run E ok s →
      Run E ok { s with audit := audit }
  | step {s : EngineState} (w : World) (op : EngineOp) : Run E ok s → w.DescribesTrees E.cfg →
      ok w s op → Run E ok (op.run E w s)

/-- One operation keeps every baseline a Merkle tree. -/
theorem EngineOp.run_merkle {E : Env} {w : World} {s : EngineState} {op : EngineOp}
    (hw : w.DescribesTrees E.cfg) (hst : s.store.Merkle E.sha256) (hop : op.Accounts E w s) :
    (op.run E w s).store.Merkle E.sha256 := by
  cases op with
  | computeTree level tree => exact computeTree_merkle hw hst level tree
  | verify level scope =>
    by_cases hseeds : Seeds E level s.store
    · rw [EngineOp.run, after_verify_of_seeds E w scope hseeds]
      exact seeded_merkle hw hst level
    · exact hst.of_keeps (verify_keeps_of_not_seeds E w scope hseeds)
  | acceptTruth scope =>
    intro l
    rw [EngineOp.run, after_acceptTruth_part, acceptPromoted_part]
    cases hlook : KeyedList.lookup Prod.fst l (acceptShown E w s).rows with
    | none => exact hst l
    | some r =>
      have hmem := KeyedList.mem_of_lookup hlook
      have hl : r.1 = l := KeyedList.key_of_lookup hlook
      exact promoted_merkle (storeScopeOf_ne_nil scope) (hst l) (mem_passes_merkle hw hst hmem)
        (hl ▸ hop r hmem)
  | autoAccept level scope =>
    by_cases hseeds : Seeds E level s.store
    · rw [EngineOp.run, (autoAccept_of_seeds E w scope hseeds).1]
      exact seeded_merkle hw hst level
    · rw [EngineOp.run]
      cases hrun : Integrity.autoAccept E w level scope s with
      | error e t =>
        rw [after_of_error hrun]
        exact hst.of_keeps (autoAccept_error E w hseeds hrun)
      | ok res t =>
        rw [after_of_ok hrun]
        obtain ⟨-, ⟨-, hkeep⟩ | ⟨-, -, -, hpart⟩⟩ := autoAccept_cases E w hseeds hrun
        · exact hst.of_keeps hkeep
        · intro l
          rw [hpart]
          split
          · rename_i hl
            exact foldRows_merkle (hst l) (passes_at_merkle hw hst _ _ l)
              (foldedPaths_topDown E s.audit _) (hop hseeds l hl)
          · exact hst l

theorem run_merkle {E : Env} {s : EngineState}
    (h : Run E (fun w s op => op.Accounts E w s) s) : s.store.Merkle E.sha256 := by
  induction h with
  | init => exact fun _ => merkleTree_nil E.sha256
  | logged audit _ ih => exact ih
  | step w op _ hw hop ih => exact EngineOp.run_merkle hw ih hop

/-- The hashes of the stored directories: the fold over the stored children, or a
sentinel where there are none. -/
structure DirHashes (sha256 : Bytes → Bytes) (b : Partition) : Prop where
  folded : ∀ n ∈ b.rows, n.isDir = true → b.getChildren n.path ≠ [] →
    n.hash = nodeHex sha256 ((b.getChildren n.path).map childRef)
  childless : ∀ n ∈ b.rows, n.isDir = true → b.getChildren n.path = [] →
    n.hash = emptyDirHex sha256 ∨ n.hash = unreadableHex sha256

theorem not_dirHashes_of_stale {sha256 : Bytes → Bytes} {b : Partition} {p : Str}
    (h : (b.get p).any (fun n => n.isDir && decide (b.getChildren p ≠ [] ∧
      n.hash ≠ nodeHex sha256 ((b.getChildren p).map childRef))) = true) :
    ¬ DirHashes sha256 b := by
  intro hall
  obtain ⟨n, hn, hbad⟩ := (Option.any_eq_true _ _).mp h
  obtain ⟨hmem, hpath⟩ := Partition.get_eq_some_iff.mp hn
  rw [Bool.and_eq_true, decide_eq_true_eq] at hbad
  have hrow := hall.folded n hmem hbad.1
  rw [hpath] at hrow
  exact hbad.2.2 (hrow hbad.2.1)

/-- Where a pass over the node agrees with the baseline, it agrees below. -/
def PruningSound (E : Env) (s : EngineState) (l : Level) : Prop :=
  ∀ (w : World) (k k' : Nat) (nodes : List StoredNode), w.DescribesTrees E.cfg →
    computeForestNodes E w s.store l k = .ok nodes k' →
      ∀ p, hashAt (s.store.part .baseline l).rows p = hashAt nodes p →
        ∀ q, Below p q → hashAt (s.store.part .baseline l).rows q = hashAt nodes q

theorem MerkleTree.dirHashes {sha256 : Bytes → Bytes} {b : Partition}
    (hb : MerkleTree sha256 SUPER_ROOT b.rows) : DirHashes sha256 b := by
  constructor
  · intro n hn _ hne
    rw [(hb.hash_node hn (mt Partition.kids_eq_nil_iff.mp hne)).2]
    exact congrArg hashHex (foldNode_perm (b.kidRefs_perm n.path).symm
      (kids_names_nodup b.nodup n.path))
  · intro n hn hdir hnil
    cases hb.hashed n hn with
    | leaf payload hleaf _ =>
      rw [hdir] at hleaf
      cases hleaf
    | unreadable _ hh => exact Or.inr hh
    | emptyDir _ _ hh => exact Or.inl hh
    | node _ hne _ => exact absurd (Partition.kids_eq_nil_iff.mpr hnil) hne

/-- In a run whose operations account for what they change, the directory hashes
of every baseline are right, and the differ may skip what has equal hashes. -/
theorem run_baseline_sound {E : Env} (hsha : Digest.CollisionFree E.sha256) {s : EngineState}
    (h : Run E (fun w s op => op.Accounts E w s) s) (l : Level) :
    DirHashes E.sha256 (s.store.part .baseline l) ∧ PruningSound E s l := by
  have hmerkle := run_merkle h
  constructor
  · exact (hmerkle l).dirHashes
  · intro w k k' nodes hw hpass p hp q hq
    exact (hmerkle l).hash_agree_below hsha (computeForestNodes_merkle hw (hmerkle l) hpass) hp hq

/-- The whole forest has no top to account for. -/
theorem accounts_whole (E : Env) (w : World) (s : EngineState) :
    (EngineOp.acceptTruth SUPER_ROOT).Accounts E w s := by
  intro r _ p _ hp
  have : E.under (parentForestPath p) ['/'] = true := E.laws.whole _
  rw [show storeScopeOf SUPER_ROOT = ['/'] from rfl, this] at hp
  cases hp

/-- A host with one file, before and after an edit. -/
def motdFirst : World :=
  .ofFiles [.dir "/etc", .file "/etc/motd" "1.0" 'a']

def motdEdited : World :=
  .ofFiles [.dir "/etc", .file "/etc/motd" "2.0" 'b']

theorem motdFirst_describesTrees : motdFirst.DescribesTrees Env.sample.cfg :=
  World.ofHost_describesTrees (by decide +kernel) (by decide +kernel)

theorem motdEdited_describesTrees : motdEdited.DescribesTrees Env.sample.cfg :=
  World.ofHost_describesTrees (by decide +kernel) (by decide +kernel)

def motdAccepted : EngineState :=
  EngineOp.run .sample motdFirst .init (.acceptTruth SUPER_ROOT)

theorem run_motdAccepted {ok : World → EngineState → EngineOp → Prop}
    (h : ok motdFirst .init (.acceptTruth SUPER_ROOT)) : Run .sample ok motdAccepted :=
  @Run.step .sample ok .init motdFirst (.acceptTruth SUPER_ROOT) .init motdFirst_describesTrees h

/-- The edit is looked at, and then accepted with the whole forest. -/
def motdLooked : EngineState :=
  EngineOp.run .sample motdEdited motdAccepted (.verify (.only .l3) SUPER_ROOT)

def motdReaccepted : EngineState :=
  EngineOp.run .sample motdEdited motdLooked (.acceptTruth SUPER_ROOT)

theorem run_motdReaccepted : Run .sample (fun w s op => op.Accounts .sample w s) motdReaccepted :=
  @Run.step .sample (fun w s op => op.Accounts .sample w s) motdLooked motdEdited
    (.acceptTruth SUPER_ROOT)
    (@Run.step .sample (fun w s op => op.Accounts .sample w s) motdAccepted motdEdited
      (.verify (.only .l3) SUPER_ROOT)
      (@run_motdAccepted (fun w s op => op.Accounts .sample w s)
        (accounts_whole .sample motdFirst .init))
      motdEdited_describesTrees trivial)
    motdEdited_describesTrees (accounts_whole .sample motdEdited motdLooked)

theorem run_baseline_sound_motd :
    DirHashes Env.sample.sha256 (motdReaccepted.store.part .baseline .l3) ∧
      PruningSound .sample motdReaccepted .l3 :=
  run_baseline_sound Digest.lengthPrefixed_collisionFree run_motdReaccepted .l3

def motdStale : EngineState :=
  EngineOp.run .sample motdEdited motdAccepted (.acceptTruth "host/etc/motd".toList)

theorem run_motdStale : Run .sample (fun _ _ _ => True) motdStale :=
  @Run.step .sample (fun _ _ _ => True) motdAccepted motdEdited
    (.acceptTruth "host/etc/motd".toList) (@run_motdAccepted (fun _ _ _ => True) trivial)
    motdEdited_describesTrees trivial

/-- The file is edited and accepted by its own scope: the directories above it keep
the hashes they had. -/
theorem run_baseline_not_sound :
    ¬ ∀ s, Run .sample (fun _ _ _ => True) s → ∀ l,
      DirHashes Env.sample.sha256 (s.store.part .baseline l) ∧ PruningSound .sample s l := by
  intro h
  have hstale : ¬ DirHashes Env.sample.sha256 (motdStale.store.part .baseline .l3) :=
    not_dirHashes_of_stale (p := "host/etc".toList) (by decide +kernel)
  exact hstale (h motdStale run_motdStale .l3).1

end HomelabMcp.Integrity
