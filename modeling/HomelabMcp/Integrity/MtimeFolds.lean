import HomelabMcp.Integrity.AutoAccept

/-!
# Folding a changed time stamp

A path that drifts at L1 alone is folded as harmless. That its content did not
change is known only when the run looked at the content: a smart run did, an L1
run did not; and a file that could not be read looks the same both times.

- `l1_only_bytes_iff`: when the fold of such a path carries no content.
- `not_hidden_of_merkle`: between Merkle trees the pruned walk hides no file.
-/

namespace HomelabMcp.Integrity

open SlashPath SortKey Text Effect

/-- A content leaf as it is recorded for a file of these bytes: their hash, or
the sentinel when reading them failed. -/
def RecordedFrom (sha256 : Bytes → Bytes) (hash : Str) (content : Bytes) : Prop :=
  hash = contentLeafHash sha256 content ∨ hash = unreadableHex sha256

section

variable (E : Env) (w : World)

/-- What the run's own content pass, if it made one, says about the bytes the
file has now. -/
def ReadNow (level : VerifyLevel) (s : EngineState) (f : Str) (content : Bytes) : Prop :=
  Level.l3 ∈ level.levels → ∀ hash,
    fileHashAt ((verifyShown E w level s).at .l3) f = some hash →
      RecordedFrom E.sha256 hash content

/-- A run folds a file for its time stamp alone; the content leaf of the
baseline, and the one the run may have seen, were recorded from some bytes. -/
structure L1OnlyFold (level : VerifyLevel) (scope : Str) (s : EngineState) (f old : Str) :
    Prop where
  compares : ¬ Seeds E level s.store
  judged : (returned (verify E w level scope) s).isSome
  folded : ∃ o ∈ foldedOutcomes (runPolicy E w level scope s), o.path = f ∧ o.reason = .l1Only
  present : fileHashAt ((verifyShown E w level s).at .l1) f ≠ none
  recorded : fileHashAt (s.store.part .baseline .l3) f = some old
  from_bytes : ∃ content, RecordedFrom E.sha256 old content
  read : ∃ content, ReadNow E w level s f content

/-- The file has the bytes it had, whichever bytes are consistent with what the
baseline and the run recorded. -/
def SameBytes (level : VerifyLevel) (s : EngineState) (f old : Str) : Prop :=
  ∀ content content', RecordedFrom E.sha256 old content → ReadNow E w level s f content' →
    content = content'

/-- The L3 walk does not come by a path at which the two sides differ. -/
def Hidden (level : VerifyLevel) (scope : Str) (s : EngineState) (f old : Str) : Prop :=
  ¬ Visited (s.store.part .baseline .l3) ((verifyShown E w level s).at .l3) scope f ∧
    fileHashAt ((verifyShown E w level s).at .l3) f ≠ some old

/-- The run is a smart one, it could read the file, and no equal hash above the
file hides it. -/
structure ContentLooked (level : VerifyLevel) (scope : Str) (s : EngineState) (f old : Str) :
    Prop where
  smart : level = .smart
  readable : ∃ hash, fileHashAt ((verifyShown E w level s).at .l3) f = some hash ∧
    hash ≠ unreadableHex E.sha256
  shown : ¬ Hidden E w level scope s f old

variable {E w} {level : VerifyLevel} {scope : Str} {s : EngineState} {f old : Str}

/-- A path that is folded for L1 alone has no entry at L3, in a run that has one
at L1. -/
theorem L1OnlyFold.levels (h : L1OnlyFold E w level scope s f old) :
    (runDiffs E w level scope s).has .l1 f ∧ ¬ (runDiffs E w level scope s).has .l3 f := by
  obtain ⟨o, ho, hop, hreason⟩ := h.folded
  obtain ⟨before, d, later, hds, rfl⟩ := mem_judge.mp (List.mem_filter.mp ho).1
  obtain ⟨h₁, -, h₃⟩ := decideLeaf_l1Only hreason
  obtain ⟨hd, -⟩ := mem_driftOf.mp (hds ▸ List.mem_append_right before List.mem_cons_self)
  have hpath : d.path = f := (decideLeaf_path _ _ (toLeafDrift d)).symm.trans hop
  have h₁ : d.l1 = true := h₁
  have h₃ : d.l3 = false := h₃
  rw [hd] at h₁ h₃
  rw [← hpath]
  exact ⟨h₁, fun h => Bool.false_ne_true (h₃.symm.trans h)⟩

/-- So the run compares L1 and the gate is open. -/
theorem L1OnlyFold.opened (h : L1OnlyFold E w level scope s f old) :
    .l1 ∈ level.levels ∧ ¬ Gated level s.store scope (verifyShown E w level s) := by
  by_contra hnot
  have hat := comparedDiffs_at level s.store scope (verifyShown E w level s) .l1
  rw [if_neg hnot] at hat
  have := h.levels.1
  rw [PerLevel.has, runDiffs, hat] at this
  cases this

theorem L1OnlyFold.smart (h : L1OnlyFold E w level scope s f old) (hl : Level.l3 ∈ level.levels) :
    level = .smart := by
  cases level with
  | smart => rfl
  | only l =>
    have h₁ := List.mem_singleton.mp h.opened.1
    have h₃ := List.mem_singleton.mp hl
    exact absurd (h₁.trans h₃.symm) (by decide)

/-- Without an L3 entry, a file that the walk comes by is as the baseline has it. -/
theorem L1OnlyFold.unchanged (h : L1OnlyFold E w level scope s f old)
    (hlooked : ContentLooked E w level scope s f old) :
    fileHashAt ((verifyShown E w level s).at .l3) f = some old := by
  by_contra hne
  obtain ⟨hash, hnow, -⟩ := hlooked.readable
  obtain ⟨m, hm, hmleaf, hmhash⟩ := fileHashAt_eq_some.mp hnow
  obtain ⟨n, hn, hnleaf, hnhash⟩ := fileHashAt_eq_some.mp h.recorded
  have hvisited : Visited (s.store.part .baseline .l3) ((verifyShown E w level s).at .l3) scope f := by
    by_contra hv
    exact hlooked.shown ⟨hv, hne⟩
  have hdiff : n.hash ≠ m.hash := fun heq => hne (by rw [hnow, ← hmhash, ← heq, hnhash])
  -- two different file leaves make an entry, and it is about a leaf
  obtain ⟨e, he⟩ := entryAt_of_leaves hn hm hdiff hnleaf hmleaf
  have hleaf := isLeafDrift_of_leaf (b := s.store.part .baseline .l3) ((entryAt_path he).symm ▸ hm)
    hmleaf
  have hl : Level.l3 ∈ level.levels := by
    rw [hlooked.smart]
    decide
  refine h.levels.2 ?_
  rw [PerLevel.has, runDiffs, comparedDiffs_at, if_pos ⟨hl, h.opened.2⟩, driftSeen,
    driftAt_levelDrift.mpr ⟨hvisited, he, hleaf⟩]
  rfl

/-- There are other bytes. -/
theorem exists_ne_content (content : Bytes) : ∃ content' : Bytes, content' ≠ content :=
  ⟨0 :: content, List.cons_ne_self 0 content⟩

variable (E w level scope s)

/-- A fold for L1 alone carries no content exactly when the run looked at the
content and could read it. -/
theorem l1_only_bytes_iff (hsha : Digest.CollisionFree E.sha256) :
    (∀ f old, L1OnlyFold E w level scope s f old → SameBytes E w level s f old) ↔
      ∀ f old, L1OnlyFold E w level scope s f old → ContentLooked E w level scope s f old := by
  refine forall_congr' fun f => forall_congr' fun old => forall_congr' fun hfold => ?_
  constructor
  · intro h
    obtain ⟨content, hthen⟩ := hfold.from_bytes
    obtain ⟨content', hnow⟩ := hfold.read
    obtain rfl := h content content' hthen hnow
    obtain ⟨other, hother⟩ := exists_ne_content content
    have honly : ¬ ReadNow E w level s f other := fun hr => hother (h content other hthen hr).symm
    have hl : Level.l3 ∈ level.levels := by
      by_contra hl
      exact honly fun h => absurd h hl
    obtain ⟨hash, hfresh, hread⟩ : ∃ hash,
        fileHashAt ((verifyShown E w level s).at .l3) f = some hash ∧
          ¬ RecordedFrom E.sha256 hash other := by
      by_contra hnone
      refine honly fun _ hash hfresh => ?_
      by_contra hread
      exact hnone ⟨hash, hfresh, hread⟩
    have hreadable : hash ≠ unreadableHex E.sha256 := fun heq => hread (Or.inr heq)
    refine ⟨hfold.smart hl, ⟨hash, hfresh, hreadable⟩, fun hhidden => hhidden.2 ?_⟩
    have hhash := (hnow hl hash hfresh).resolve_right hreadable
    have hold : old = contentLeafHash E.sha256 content := by
      refine hthen.resolve_right fun heq => ?_
      exact hother (h other content (Or.inr heq) hnow)
    rw [hfresh, hhash, hold]
  · intro hlooked content content' hthen hnow
    obtain ⟨hash, hfresh, hreadable⟩ := hlooked.readable
    have hsame := hfold.unchanged hlooked
    obtain rfl : hash = old := Option.some.inj (hfresh.symm.trans hsame)
    have hl : Level.l3 ∈ level.levels := by
      rw [hlooked.smart]
      decide
    have h₁ := hthen.resolve_right hreadable
    have h₂ := (hnow hl hash hfresh).resolve_right hreadable
    exact contentLeafHash_injective hsha (h₁.symm.trans h₂)

/-- Between Merkle trees nothing that both sides have is hidden. -/
theorem not_hidden_of_merkle (hsha : Digest.CollisionFree E.sha256)
    (hb : MerkleTree E.sha256 SUPER_ROOT (s.store.part .baseline .l3).rows)
    (hw : MerkleTree E.sha256 SUPER_ROOT ((verifyShown E w level s).at .l3).rows)
    (hscope : Below scope f) (hold : fileHashAt (s.store.part .baseline .l3) f = some old)
    (hnow : fileHashAt ((verifyShown E w level s).at .l3) f ≠ none) :
    ¬ Hidden E w level scope s f old := by
  rintro ⟨hv, hne⟩
  obtain ⟨n, hn, -, hnhash⟩ := fileHashAt_eq_some.mp hold
  obtain ⟨hash, hfresh⟩ := Option.ne_none_iff_exists'.mp hnow
  obtain ⟨m, hm, -, hmhash⟩ := fileHashAt_eq_some.mp hfresh
  have hdiff : hashAt (s.store.part .baseline .l3).rows f ≠
      hashAt ((verifyShown E w level s).at .l3).rows f := by
    rw [hashAt, hashAt, ← get_eq_rowAt, ← get_eq_rowAt, hn, hm, Option.map_some, Option.map_some,
      hnhash, hmhash]
    exact fun heq => hne (hfresh.trans heq.symm)
  refine hv (visited_of_differ hsha hb hw hscope hdiff ?_ ?_)
  · rw [hn]
    simp
  · rw [hm]
    simp

end

/-- Baselines of a file with its first contents. -/
def noteBaselines : EngineState :=
  after (verify .sample (.ofFiles [.dir "/etc", .ofBytes "/etc/note" "1.0" (List.replicate 31 65)])
    .smart SUPER_ROOT) .init

def noteRewritten : World :=
  .ofFiles [.dir "/etc", .ofBytes "/etc/note" "2.0" (List.replicate 31 66)]

def noteLeaf : Str :=
  contentLeafHash Digest.lengthPrefixed (List.replicate 31 65)

theorem note_l1_only : L1OnlyFold .sample noteRewritten (.only .l1) SUPER_ROOT noteBaselines
    "host/etc/note".toList noteLeaf where
  compares := by decide +kernel
  judged := by decide +kernel
  folded := by decide +kernel
  present := by decide +kernel
  recorded := by decide +kernel
  from_bytes := ⟨List.replicate 31 65, Or.inl rfl⟩
  read := ⟨[], fun h => absurd h (by decide)⟩

theorem l1_only_bytes_note :
    (∀ f old, L1OnlyFold .sample noteRewritten (.only .l1) SUPER_ROOT noteBaselines f old →
        SameBytes .sample noteRewritten (.only .l1) noteBaselines f old) ↔
      ∀ f old, L1OnlyFold .sample noteRewritten (.only .l1) SUPER_ROOT noteBaselines f old →
        ContentLooked .sample noteRewritten (.only .l1) SUPER_ROOT noteBaselines f old :=
  l1_only_bytes_iff _ _ _ _ _ Digest.lengthPrefixed_collisionFree

/-- An L1 run folds the rewritten file without having looked at it. -/
theorem l1_only_other_bytes :
    ¬ ∀ f old, L1OnlyFold .sample noteRewritten (.only .l1) SUPER_ROOT noteBaselines f old →
      SameBytes .sample noteRewritten (.only .l1) noteBaselines f old := by
  intro h
  have hsame := h _ _ note_l1_only (List.replicate 31 65) (List.replicate 31 66) (Or.inl rfl)
    fun hl => absurd hl (by decide)
  exact absurd hsame (by decide)

end HomelabMcp.Integrity
