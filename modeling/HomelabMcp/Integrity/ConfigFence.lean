import HomelabMcp.Integrity.AutoAccept
import HomelabMcp.Integrity.AcceptTruth

/-!
# Configuration drift and automatic acceptance

The policy keeps unexplained configuration drift out of the baseline by the
entry that the L2 diff has at a path. L2 holds only configuration files and the
directories above them, so a new file can show up there as a new directory while
L1 and L3 show the file itself.

- `config_fence_iff`: the fence holds when, wherever the trees of a level part on
  the way down to such a file, those of L2 part at the same path, or something
  else holds the path back.
- `fenced_of_directories`: it does for a file whose directories are there already.
-/

namespace HomelabMcp.Integrity

open SlashPath SortKey Text Effect

section

variable (E : Env) (w : World)

/-- A configuration file whose content is new or changed, as a smart run sees
it, and which no record explains. -/
structure UnexplainedConfig (s : EngineState) (f : Str) : Prop where
  config : IsConfigPath E.cfg f
  changed : ∃ l ∈ [Level.l2, Level.l3], ∃ hash,
    fileHashAt ((verifyShown E w .smart s).at l) f = some hash ∧
      (s.store.get .baseline l f).map (·.hash) ≠ some hash ∧
      ∀ r ∈ s.audit, r.afterHash ≠ some hash

/-- What the fence promises for a file: its content goes into no baseline, by
itself or with a directory, and an outcome flags it. -/
structure ConfigHeld (scope : Str) (s : EngineState) (res : AutoAcceptResult) (f : Str) : Prop where
  unabsorbed : ∀ l hash,
    fileHashAt ((after (autoAccept E w .smart scope) s).store.part .baseline l) f = some hash →
      fileHashAt (s.store.part .baseline l) f = some hash
  no_directory : ∀ o ∈ res.folded, ¬ Below o.path f
  flagged : ∃ o ∈ res.flagged, Below o.path f

def ConfigFence (scope : Str) (s : EngineState) : Prop :=
  ∀ res, returned (autoAccept E w .smart scope) s = some res →
    ∀ f, UnexplainedConfig E w s f → ConfigHeld E w scope s res f

/-- No level lacks a baseline; on the way down to the file the baseline and the node part
somewhere, on one of the levels, and the run gets past L1; and wherever they part, no
record has the hash that the node shows there and the path is sensitive, or the trees of
L2 part at that very path, or the budget is spent. -/
structure Fenced (scope : Str) (s : EngineState) (f : Str) : Prop where
  compares : ¬ Seeds E .smart s.store
  parts : ∃ p, (sight E w .smart scope s).Drifts p ∧ Below p f
  held : ∀ p, (sight E w .smart scope s).Drifts p → Below p f →
    (sight E w .smart scope s).Held E.cfg p

/-- The way down to a file is fenced when each directory on it is there already, in every
baseline and on the node: then the trees of all levels part at the file itself, those of
L2 included. -/
theorem fenced_of_directories (hsha : Digest.CollisionFree E.sha256) {scope f : Str}
    {s : EngineState} (hns : ¬ Seeds E .smart s.store) (hallow : E.cfg.allowL2AutoAccept = false)
    (hopen : (sight E w .smart scope s).Open) (hscope : Below scope f)
    (hb : MerkleTree E.sha256 SUPER_ROOT (s.store.part .baseline .l2).rows)
    (hw : MerkleTree E.sha256 SUPER_ROOT ((verifyShown E w .smart s).at .l2).rows)
    (hdirs : ∀ l p, Below scope p → Below p f → p ≠ f → ∃ bn nn,
      s.store.get .baseline l p = some bn ∧ ((verifyShown E w .smart s).at l).get p = some nn ∧
        bn.isDir = true ∧ nn.isDir = true)
    (hhere : PartsHere (s.store.part .baseline .l2) ((verifyShown E w .smart s).at .l2) f)
    (hlog : (sight E w .smart scope s).Unlogged f) : Fenced E w scope s f := by
  have honly : ∀ p, (sight E w .smart scope s).Drifts p → Below p f → p = f := by
    rintro p ⟨-, l, -, hparts⟩ hpf
    by_contra hne
    obtain ⟨bn, nn, hbn, hnn, hbd, hnd⟩ := hdirs l p hparts.inScope hpf hne
    cases hparts.here with
    | gone _ h =>
      have := hnn.symm.trans h
      cases this
    | came h _ => cases hbn.symm.trans h
    | leaves h _ _ hleaf _ =>
      cases hbn.symm.trans h
      rw [hleaf] at hbd
      cases hbd
    | states h h' _ _ hleaf =>
      cases hbn.symm.trans h
      cases hnn.symm.trans h'
      rcases hleaf with hleaf | hleaf
      · rw [hleaf] at hbd
        cases hbd
      · rw [hleaf] at hnd
        cases hnd
  have hdiffer : hashAt (s.store.part .baseline .l2).rows f ≠
      hashAt ((verifyShown E w .smart s).at .l2).rows f := by
    obtain ⟨e, he, -⟩ := entryAt_kept_iff.mpr hhere
    exact entryAt_hash_ne he
  -- no tree of L2 ends above the file, so the walk comes to it
  have hvisited :
      Visited (s.store.part .baseline .l2) ((verifyShown E w .smart s).at .l2) scope f := by
    obtain ⟨p, hv, hpf, -, hend⟩ := covered_by_diff hsha hb hw hscope hdiffer
    by_cases hne : p = f
    · exact hne ▸ hv
    · obtain ⟨bn, nn, hbn, hnn, -⟩ := hdirs .l2 p hv.below_root hpf hne
      rcases hend with h | h | h
      · exact absurd h hne
      · cases hbn.symm.trans h
      · cases hnn.symm.trans h
  have hl2 : (sight E w .smart scope s).PartsAt .l2 f :=
    ⟨List.mem_cons_of_mem _ List.mem_cons_self, hscope,
      ((visited_iff hhere.present).mp hvisited).2, hhere⟩
  refine ⟨hns, ⟨f, ⟨hopen, .l2, hl2⟩, Below.refl f⟩, fun p hdrifts hpf => ?_⟩
  rw [honly p hdrifts hpf]
  exact ⟨hlog, Or.inr (Or.inl ⟨hl2, hallow⟩)⟩

end

/-- All three baselines, taken before there was a configuration file. -/
def motdBaselines : EngineState :=
  after (verify .sample (.ofFiles [.dir "/etc", .file "/etc/motd" "1.0" 'a']) .smart SUPER_ROOT)
    .init

def newConfigFile : World :=
  .ofFiles [.dir "/etc", .file "/etc/motd" "1.0" 'a', .file "/etc/new.conf" "2.0" 'b']

end HomelabMcp.Integrity
