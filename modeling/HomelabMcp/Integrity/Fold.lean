import HomelabMcp.Integrity.Passes

/-!
# Folding one row into a baseline

`foldLeaf1` stores one working row in a baseline partition and refolds the rows
above it, as far up as there are any.

- `foldLeaf1_spec`: the row is stored, each row above it is refolded over its
  children or left alone with its children, and every other row is left alone.
- `foldRows_settled`: what a series of folds makes of the rows it does not store.
- `foldOutcomes_part`: the folds of a run, level by level.
-/

namespace HomelabMcp.Integrity

open SlashPath SortKey Text

variable {sha256 : Bytes → Bytes} {t t' : Partition} {p q x : Str} {n : StoredNode}

theorem StoredNode.parentPath_congr {n m : StoredNode} (h : n.path = m.path) :
    n.parentPath = m.parentPath := by
  rw [n.parent_eq, m.parent_eq, h]

theorem StoredNode.parentPath_ne_self (n : StoredNode) : n.parentPath ≠ some n.path := by
  intro h
  obtain ⟨hne, hp⟩ := StoredNode.parentPath_eq_some.mp h
  have hlt := length_parent_lt hne
  rw [show parent n.path = n.path from hp] at hlt
  exact Nat.lt_irrefl _ hlt

theorem StoredNode.below_parent (n : StoredNode) : Below (parentForestPath n.path) n.path := by
  have h := (Below.refl (parentForestPath n.path)).join (slash_notMem_leaf n.path)
  rwa [show join (parentForestPath n.path) (leaf n.path) = n.path from n.path_eq_join.symm] at h

/-- Storing a row changes the children of its parent only. -/
theorem Partition.getChildren_upsert_of_ne (h : n.parentPath ≠ some p) :
    (t.upsertAll [n]).getChildren p = t.getChildren p := by
  refine Partition.getChildren_congr fun m hm => ?_
  have hne : n.path ≠ m.path := fun heq => h (StoredNode.parentPath_congr heq ▸ hm)
  rw [Partition.get_upsert_one, if_neg hne]

/-! ## One fold -/

/-- The row at a path is as before, and so are its children if it has a row. -/
def Kept (t t' : Partition) (x : Str) : Prop :=
  t'.get x = t.get x ∧ (t.get x ≠ none → t'.getChildren x = t.getChildren x)

/-- The row at a path is the old one, refolded over its present children, of which
there are some. -/
def RefoldedAt (sha256 : Bytes → Bytes) (t t' : Partition) (x : Str) : Prop :=
  t'.getChildren x ≠ [] ∧ ∃ n, t.get x = some n ∧ t'.get x = some (refoldedRow sha256 t' n)

theorem Kept.refl (t : Partition) (x : Str) : Kept t t x :=
  ⟨rfl, fun _ => rfl⟩

theorem refoldedRow_congr (h : t.getChildren n.path = t'.getChildren n.path) :
    refoldedRow sha256 t n = refoldedRow sha256 t' n := by
  unfold refoldedRow
  rw [h]

@[simp] theorem refoldedRow_path : (refoldedRow sha256 t n).path = n.path := rfl

@[simp] theorem refoldedRow_parentPath : (refoldedRow sha256 t n).parentPath = n.parentPath := rfl

@[simp] theorem refoldedRow_isDir : (refoldedRow sha256 t n).isDir = true := rfl

/-- All rows from `x` down to `q` are there. -/
def Unbroken (t : Partition) (x q : Str) : Prop :=
  ∀ y, Below x y → Below y q → t.get y ≠ none

theorem Unbroken.self (h : t.get x ≠ none) : Unbroken t x x := fun y hxy hyx => by
  rwa [hyx.antisymm hxy]

/-- The refolding loop, from a path upwards: the rows there and above it are
refolded up to the first path without a row; all others are left alone. -/
theorem refoldFrom_spec {fuel : Nat} (hfuel : q.length < fuel) (hsome : t.getChildren q ≠ []) :
    let t' := refoldFrom sha256 fuel t (some q)
    (∀ x, Below x q → Unbroken t x q → RefoldedAt sha256 t t' x) ∧
      ∀ x, x ≠ q → Kept t t' x ∨ (Below x q ∧ Unbroken t x q ∧ RefoldedAt sha256 t t' x) := by
  induction fuel generalizing t q with
  | zero => exact absurd hfuel (Nat.not_lt_zero _)
  | succ fuel ih =>
    intro t'
    cases hq : t.get q with
    | none =>
      have ht' : t' = t := by
        show refoldFrom sha256 (fuel + 1) t (some q) = t
        rw [refoldFrom, hq]
      rw [ht']
      exact ⟨fun x hx h => absurd hq (h q hx (Below.refl q)), fun x _ => Or.inl (Kept.refl t x)⟩
    | some node =>
      have hpath : node.path = q := Partition.get_path hq
      let t₁ := t.upsertAll [refoldedRow sha256 t node]
      have ht' : t' = refoldFrom sha256 fuel t₁ node.parentPath := by
        show refoldFrom sha256 (fuel + 1) t (some q) = _
        rw [refoldFrom, hq]
      have hget : ∀ x, t₁.get x = if x = q then some (refoldedRow sha256 t node) else t.get x := by
        intro x
        show (t.upsertAll [refoldedRow sha256 t node]).get x = _
        rw [Partition.get_upsert_one, refoldedRow_path, hpath]
        simp only [eq_comm]
      have hkids : ∀ x, node.parentPath ≠ some x → t₁.getChildren x = t.getChildren x :=
        fun x hx => Partition.getChildren_upsert_of_ne hx
      have hself : t₁.getChildren node.path = t.getChildren node.path :=
        hkids _ node.parentPath_ne_self
      -- what becomes of `q` itself depends on its children being left alone
      have hstart : t'.get q = t₁.get q → t'.getChildren q = t₁.getChildren q →
          RefoldedAt sha256 t t' q := fun hg hc => by
        have hqkids : t'.getChildren q = t.getChildren q := by rw [hc, ← hpath, hself]
        refine ⟨hqkids ▸ hsome, node, hq, ?_⟩
        rw [hg, hget, if_pos rfl]
        exact congrArg some (refoldedRow_congr (hself.symm.trans (hpath ▸ hc.symm)))
      cases hpar : node.parentPath with
      | none =>
        have ht₁ : t' = t₁ := by
          rw [ht', hpar]
          cases fuel <;> rfl
        rw [ht₁] at hstart ⊢
        refine ⟨fun x hx _ => ?_, fun x hx => Or.inl ⟨?_, fun _ => hkids x ?_⟩⟩
        · have hroot : q = SUPER_ROOT := by
            by_contra hne
            have := StoredNode.parentPath_eq_some.mpr ⟨hpath ▸ hne, rfl⟩
            rw [hpar] at this
            cases this
          have hxq : x = q := by
            rw [hroot] at hx ⊢
            exact hx.eq_nil
          exact hxq ▸ hstart rfl rfl
        · rw [hget, if_neg hx]
        · rw [hpar]
          exact nofun
      | some q' =>
        obtain ⟨hne, hqq'⟩ := StoredNode.parentPath_eq_some.mp hpar
        rw [hpath] at hqq' hne
        have hlt : q'.length < q.length := hqq' ▸ length_parent_lt hne
        have hsome' : t₁.getChildren q' ≠ [] := by
          refine List.ne_nil_of_mem (a := refoldedRow sha256 t node) ?_
          refine Partition.mem_getChildren.mpr ⟨?_, hpar⟩
          rw [hget, refoldedRow_path, if_pos hpath]
        obtain ⟨hfirst, hothers⟩ := ih (t := t₁) (q := q') (by omega) hsome'
        rw [hpar] at ht'
        rw [← ht'] at hfirst hothers
        have hq'q : q' ≠ q := fun h => by rw [h] at hlt; exact Nat.lt_irrefl _ hlt
        have habove : ∀ y, Below y q' → Below y q := fun y hy => by
          rw [← hpath, StoredNode.path_of_parent hpar]
          exact hy.join (slash_notMem_leaf _)
        have hback : ∀ y, y ≠ q → RefoldedAt sha256 t₁ t' y → RefoldedAt sha256 t t' y :=
          fun y hy ⟨hk, m, hm, hm'⟩ => ⟨hk, m, by rwa [hget, if_neg hy] at hm, hm'⟩
        have hrowsBack : ∀ y, Unbroken t₁ y q' → Unbroken t y q := fun y hrows z hyz hzq => by
          rcases hzq.eq_or_above with rfl | hz
          · rw [hq]
            simp
          · have hz : Below z q' := hqq' ▸ hz
            have hzq' : z ≠ q := fun h => absurd hz.length_le (by rw [h]; omega)
            have hrow := hrows z hyz hz
            rwa [hget, if_neg hzq'] at hrow
        refine ⟨fun x hx hrows => ?_, fun y hy => ?_⟩
        · rcases hx.eq_or_above with rfl | hx
          · rcases hothers x (Ne.symm hq'q) with ⟨hg, hc⟩ | ⟨hb, -⟩
            · refine hstart hg (hc ?_)
              rw [hget, if_pos rfl]
              simp
            · exact absurd hb.length_le (by omega)
          · have hx : Below x q' := hqq' ▸ hx
            have hxq : x ≠ q := fun h => absurd hx.length_le (by rw [h]; omega)
            refine hback x hxq (hfirst x hx fun y hxy hyq' => ?_)
            rw [hget]
            split
            · simp
            · exact hrows y hxy (habove y hyq')
        · by_cases hyq' : y = q'
          · subst hyq'
            by_cases hnone : t₁.get y = none
            · -- no row there: the loop ends without having touched anything above
              have hstop : t' = t₁ := by
                rw [ht']
                cases fuel with
                | zero => rfl
                | succ fuel => rw [refoldFrom, hnone]
              rw [hget, if_neg hy] at hnone
              refine Or.inl ⟨?_, fun h => absurd hnone h⟩
              rw [hstop, hget, if_neg hy]
            · exact Or.inr ⟨habove y (Below.refl y), hrowsBack y (Unbroken.self hnone),
                hback y hy (hfirst y (Below.refl y) (Unbroken.self hnone))⟩
          · rcases hothers y hyq' with ⟨hg, hc⟩ | ⟨hb, hrows, hr⟩
            · rw [hget, if_neg hy] at hg hc
              have hky : t₁.getChildren y = t.getChildren y :=
                hkids y fun h => hyq' (Option.some.inj (hpar.symm.trans h)).symm
              exact Or.inl ⟨hg, fun h => (hc h).trans hky⟩
            · exact Or.inr ⟨habove y hb, hrowsBack y hrows, hback y hy hr⟩

/-- What one fold does: it stores the row, refolds the rows above it as far up as
there are rows, and leaves the rest alone. -/
structure FoldSpec (sha256 : Bytes → Bytes) (t t' : Partition) (row : StoredNode) : Prop where
  stored : t'.get row.path = some row
  kids : t'.getChildren row.path = t.getChildren row.path
  above : ∀ x, row.path ≠ SUPER_ROOT → Below x (parentForestPath row.path) →
    Unbroken t x (parentForestPath row.path) → RefoldedAt sha256 t t' x
  others : ∀ x, x ≠ row.path → Kept t t' x ∨
    (Below x row.path ∧ Unbroken t x (parentForestPath row.path) ∧ RefoldedAt sha256 t t' x)

theorem foldLeaf1_of_none {working : Partition} (h : working.get p = none) :
    foldLeaf1 sha256 working t p = t := by
  rw [foldLeaf1, h]

theorem foldLeaf1_spec (sha256 : Bytes → Bytes) (t : Partition) {working : Partition}
    {row : StoredNode} (h : working.get p = some row) :
    FoldSpec sha256 t (foldLeaf1 sha256 working t p) row := by
  have hpath : row.path = p := Partition.get_path h
  let t₀ := t.upsertAll [row]
  have hget : ∀ x, t₀.get x = if x = row.path then some row else t.get x := fun x => by
    show (t.upsertAll [row]).get x = _
    rw [Partition.get_upsert_one]
    simp only [eq_comm]
  have hkids : ∀ x, row.parentPath ≠ some x → t₀.getChildren x = t.getChildren x :=
    fun x hx => Partition.getChildren_upsert_of_ne hx
  have hrun : foldLeaf1 sha256 working t p =
      refoldFrom sha256 (p.length + 1) t₀ row.parentPath := by
    rw [foldLeaf1, h]
    show refoldPathToRoot sha256 t₀ p = _
    rw [refoldPathToRoot, hget, if_pos hpath.symm]
    rfl
  rw [hrun]
  cases hpar : row.parentPath with
  | none =>
    rw [show refoldFrom sha256 (p.length + 1) t₀ none = t₀ from rfl]
    refine ⟨(hget _).trans (if_pos rfl), hkids _ row.parentPath_ne_self, fun x hne => ?_,
      fun x hx => Or.inl ⟨(hget x).trans (if_neg hx), fun _ => hkids x ?_⟩⟩
    · have := StoredNode.parentPath_eq_some.mpr ⟨hne, rfl⟩
      rw [hpar] at this
      cases this
    · rw [hpar]
      exact nofun
  | some q =>
    obtain ⟨hne, hq⟩ := StoredNode.parentPath_eq_some.mp hpar
    have hlt : q.length < row.path.length := hq ▸ length_parent_lt hne
    have hself : row.path ≠ q := fun heq => by rw [← heq] at hlt; exact Nat.lt_irrefl _ hlt
    have hbelow : ∀ y, Below y q → Below y row.path := fun y hy => by
      rw [StoredNode.path_of_parent hpar]
      exact hy.join (slash_notMem_leaf _)
    have hback : ∀ y t', y ≠ row.path → RefoldedAt sha256 t₀ t' y → RefoldedAt sha256 t t' y :=
      fun y t' hy ⟨hk, m, hm, hm'⟩ => ⟨hk, m, by rwa [hget, if_neg hy] at hm, hm'⟩
    have hfuel : q.length < p.length + 1 := by
      rw [← hpath]
      omega
    have hsome : t₀.getChildren q ≠ [] := List.ne_nil_of_mem (a := row)
      (Partition.mem_getChildren.mpr ⟨(hget _).trans (if_pos rfl), hpar⟩)
    obtain ⟨hfirst, hothers⟩ := refoldFrom_spec hfuel hsome
    have habove : ∀ x, Below x q → Unbroken t x q →
        RefoldedAt sha256 t (refoldFrom sha256 (p.length + 1) t₀ (some q)) x := fun x hx hrows => by
      have hxrow : x ≠ row.path := fun h => absurd hx.length_le (by rw [h]; omega)
      refine hback x _ hxrow (hfirst x hx fun y hxy hyq => ?_)
      rw [hget]
      split
      · simp
      · exact hrows y hxy hyq
    have hrow := hothers row.path hself
    have hrowKept : Kept t₀ (refoldFrom sha256 (p.length + 1) t₀ (some q)) row.path :=
      hrow.resolve_right fun h => absurd h.1.length_le (by omega)
    refine ⟨?_, ?_, fun x _ => ?_, fun y hy => ?_⟩
    · rw [hrowKept.1, hget, if_pos rfl]
    · rw [hrowKept.2 (by rw [hget, if_pos rfl]; simp)]
      exact hkids _ row.parentPath_ne_self
    · rw [hq]
      exact habove x
    · by_cases hyq : y = q
      · subst hyq
        by_cases hnone : t.get y = none
        · left
          have hstop : refoldFrom sha256 (p.length + 1) t₀ (some y) = t₀ := by
            rw [refoldFrom, hget, if_neg hy, hnone]
          rw [hstop]
          exact ⟨(hget y).trans (if_neg hy), fun h => absurd hnone h⟩
        · exact Or.inr ⟨hbelow y (Below.refl y), hq.symm ▸ Unbroken.self hnone,
            habove y (Below.refl y) (Unbroken.self hnone)⟩
      · rcases hothers y hyq with ⟨hg, hc⟩ | ⟨hb, hrows, hr⟩
        · rw [hget, if_neg hy] at hg hc
          have hky : t₀.getChildren y = t.getChildren y :=
            hkids y fun h => hyq (Option.some.inj (hpar.symm.trans h)).symm
          exact Or.inl ⟨hg, fun h => (hc h).trans hky⟩
        · refine Or.inr ⟨hbelow y hb, ?_, hback y _ hy hr⟩
          rw [hq]
          intro z hyz hzq
          have hzrow : z ≠ row.path := fun h => absurd hzq.length_le (by rw [h]; omega)
          have hrow := hrows z hyz hzq
          rwa [hget, if_neg hzrow] at hrow

theorem Partition.getChildren_perm (t : Partition) (p : Str) :
    (t.getChildren p).Perm (kids t.rows p) :=
  sortOn_perm _ _

theorem Partition.kidRefs_perm (t : Partition) (p : Str) :
    ((t.getChildren p).map childRef).Perm (kidRefs t.rows p) :=
  (t.getChildren_perm p).map childRef

theorem Partition.kids_eq_nil_iff : kids t.rows p = [] ↔ t.getChildren p = [] := by
  rw [← List.length_eq_zero_iff, ← (t.getChildren_perm p).length_eq, List.length_eq_zero_iff]

/-! ## A series of folds -/

/-- The folds of one run into one baseline partition. -/
def foldRows (sha256 : Bytes → Bytes) (working b : Partition) (paths : List Str) : Partition :=
  paths.foldl (foldLeaf1 sha256 working) b

/-- What folds elsewhere make of a row: nothing, or a refolded directory. -/
def Settled (sha256 : Bytes → Bytes) (t t' : Partition) (x : Str) : Prop :=
  Kept t t' x ∨ RefoldedAt sha256 t t' x

variable {u working b : Partition} {paths : List Str} {row : StoredNode}

theorem Kept.trans (h : Kept t t' x) (h' : Kept t' u x) : Kept t u x :=
  ⟨h'.1.trans h.1, fun hx => (h'.2 (h.1 ▸ hx)).trans (h.2 hx)⟩

theorem Settled.trans (h : Settled sha256 t t' x) (h' : Settled sha256 t' u x) :
    Settled sha256 t u x := by
  rcases h with h | ⟨hk, m, hm, hm'⟩
  · rcases h' with h' | ⟨hk', n, hn, hn'⟩
    · exact Or.inl (h.trans h')
    · exact Or.inr ⟨hk', n, h.1 ▸ hn, hn'⟩
  · have hmp : m.path = x := Partition.get_path hm
    right
    rcases h' with ⟨hg, hc⟩ | ⟨hk', n, hn, hn'⟩
    · have hkids := hc (by rw [hm']; simp)
      refine ⟨hkids ▸ hk, m, hm, ?_⟩
      rw [hg, hm', refoldedRow_congr (hmp.symm ▸ hkids.symm)]
    · -- a row refolded twice is the row refolded once, over the later children
      obtain rfl := Option.some.inj (hm'.symm.trans hn)
      refine ⟨hk', m, hm, hn'.trans (congrArg some ?_)⟩
      have hrefs : (u.getChildren m.path).map childRef ≠ [] := fun hnil =>
        hk' (hmp ▸ List.map_eq_nil_iff.mp hnil)
      unfold refoldedRow
      dsimp only
      rw [if_neg hrefs, if_neg hrefs]

theorem foldLeaf1_settled (h : working.get p ≠ none → p ≠ x) :
    Settled sha256 t (foldLeaf1 sha256 working t p) x := by
  cases hrow : working.get p with
  | none =>
    rw [foldLeaf1_of_none hrow]
    exact Or.inl (Kept.refl t x)
  | some row =>
    have hx : x ≠ row.path := by
      rw [Partition.get_path hrow]
      exact (h (by rw [hrow]; simp)).symm
    exact ((foldLeaf1_spec sha256 t hrow).others x hx).imp_right fun h => h.2.2

/-- Children change only above what is stored. -/
theorem foldLeaf1_children (h : working.get p ≠ none → ¬ Below x p) :
    (foldLeaf1 sha256 working t p).getChildren x = t.getChildren x := by
  cases hrow : working.get p with
  | none => rw [foldLeaf1_of_none hrow]
  | some row =>
    have hp := Partition.get_path hrow
    refine Partition.getChildren_congr fun c hc => ?_
    have hb : ¬ Below c.path row.path := fun hcr => by
      refine h (by rw [hrow]; simp) (Below.trans ?_ (hp ▸ hcr))
      rw [StoredNode.path_of_parent hc]
      exact Below.join_self (slash_notMem_leaf _)
    have hne : c.path ≠ row.path := fun heq => hb (heq ▸ Below.refl _)
    rw [(((foldLeaf1_spec sha256 t hrow).others c.path hne).resolve_right fun h => hb h.1).1]

/-- Where a series stores nothing, it refolds at most. -/
theorem foldRows_settled (h : ∀ p ∈ paths, working.get p ≠ none → p ≠ x) :
    Settled sha256 b (foldRows sha256 working b paths) x := by
  induction paths generalizing b with
  | nil => exact Or.inl (Kept.refl b x)
  | cons p paths ih =>
    exact (foldLeaf1_settled (h p List.mem_cons_self)).trans
      (ih fun q hq => h q (List.mem_cons_of_mem p hq))

theorem foldRows_children (h : ∀ p ∈ paths, working.get p ≠ none → ¬ Below x p) :
    (foldRows sha256 working b paths).getChildren x = b.getChildren x := by
  induction paths generalizing b with
  | nil => rfl
  | cons p paths ih =>
    exact (ih fun q hq => h q (List.mem_cons_of_mem p hq)).trans
      (foldLeaf1_children (h p List.mem_cons_self))

/-- A file leaf of the result was there before, or a fold stored it. -/
theorem foldRows_leaf (h : (foldRows sha256 working b paths).get p = some n)
    (hleaf : n.isDir = false) : b.get p = some n ∨ (p ∈ paths ∧ working.get p = some n) := by
  induction paths generalizing b with
  | nil => exact Or.inl h
  | cons q paths ih =>
    rcases ih (b := foldLeaf1 sha256 working b q) h with h | ⟨hp, hw⟩
    · cases hrow : working.get q with
      | none =>
        rw [foldLeaf1_of_none hrow] at h
        exact Or.inl h
      | some row =>
        have hspec := foldLeaf1_spec sha256 b hrow
        have hq : row.path = q := Partition.get_path hrow
        by_cases hpq : p = row.path
        · rw [hpq, hspec.stored] at h
          refine Or.inr ⟨List.mem_cons.mpr (Or.inl (hpq.trans hq)), ?_⟩
          rw [hpq, hq, hrow, h]
        · rcases hspec.others p hpq with ⟨hg, -⟩ | ⟨-, -, -, m, -, hm⟩
          · exact Or.inl (hg ▸ h)
          · obtain rfl := Option.some.inj (h.symm.trans hm)
            cases hleaf
    · exact Or.inr ⟨List.mem_cons_of_mem q hp, hw⟩

/-! ## What becomes of a stored leaf -/

/-- A fold adds the row that it stores, and takes none away. -/
theorem foldLeaf1_present_iff : (foldLeaf1 sha256 working t q).get x ≠ none ↔
    t.get x ≠ none ∨ (x = q ∧ working.get q ≠ none) := by
  cases hrow : working.get q with
  | none =>
    rw [foldLeaf1_of_none hrow]
    simp
  | some row =>
    have hspec := foldLeaf1_spec sha256 t hrow
    have hq : row.path = q := Partition.get_path hrow
    by_cases hx : x = row.path
    · refine iff_of_true ?_ (Or.inr ⟨hx.trans hq, by simp⟩)
      rw [hx, hspec.stored]
      simp
    · have hxq : x ≠ q := hq ▸ hx
      rcases hspec.others x hx with ⟨hg, -⟩ | ⟨-, -, -, m, hm, hm'⟩
      · rw [hg]
        simp [hxq]
      · rw [hm', hm]
        simp

theorem foldRows_present_iff : (foldRows sha256 working b paths).get x ≠ none ↔
    b.get x ≠ none ∨ (x ∈ paths ∧ working.get x ≠ none) := by
  induction paths generalizing b with
  | nil => exact ⟨Or.inl, fun h => h.resolve_right fun h => by cases h.1⟩
  | cons q paths ih =>
    refine (ih (b := foldLeaf1 sha256 working b q)).trans ?_
    rw [foldLeaf1_present_iff, or_assoc, List.mem_cons]
    refine or_congr_right ⟨?_, ?_⟩
    · rintro (⟨rfl, hw⟩ | ⟨hx, hw⟩)
      · exact ⟨Or.inl rfl, hw⟩
      · exact ⟨Or.inr hx, hw⟩
    · rintro ⟨rfl | hx, hw⟩
      · exact Or.inl ⟨rfl, hw⟩
      · exact Or.inr ⟨hx, hw⟩

/-- A directory comes before what lies in it. -/
def TopDown (paths : List Str) : Prop :=
  paths.Pairwise fun p q => ¬ Below q p

/-- Of the paths folded one lies below this one, the node has a row there, and with what
else is folded no row is missing in between: the refolding comes up to this path. -/
def Swallowed (working b : Partition) (folded : Str → Prop) (p : Str) : Prop :=
  ∃ q, folded q ∧ Below p q ∧ q ≠ p ∧ working.get q ≠ none ∧ ∀ y, Below p y → Below y q → y ≠ q →
    b.get y ≠ none ∨ (folded y ∧ working.get y ≠ none)

/-- A directory that is not stored again stays one. -/
theorem foldRows_dir_of_notMem (hp : p ∉ paths) (hdir : ∃ m, b.get p = some m ∧ m.isDir = true) :
    ∃ m, (foldRows sha256 working b paths).get p = some m ∧ m.isDir = true := by
  obtain ⟨m, hm, hmdir⟩ := hdir
  have hsettled : Settled sha256 b (foldRows sha256 working b paths) p :=
    foldRows_settled fun q hq _ hqp => hp (hqp ▸ hq)
  rcases hsettled with ⟨hg, -⟩ | ⟨-, m', -, hm'⟩
  · exact ⟨m, hg.trans hm, hmdir⟩
  · exact ⟨_, hm', rfl⟩

/-- A leaf survives the folds after it unless one of them swallows it. -/
theorem leaf_survives_iff (htop : TopDown paths) (hp : ∀ q ∈ paths, ¬ Below q p)
    (hrow : b.get p = some n) (hleaf : n.isDir = false) :
    (foldRows sha256 working b paths).get p = some n ↔ ¬ Swallowed working b (· ∈ paths) p := by
  induction paths generalizing b with
  | nil => exact iff_of_true hrow fun ⟨q, hq, _⟩ => by cases hq
  | cons q paths ih =>
    have hlater := List.pairwise_cons.mp htop
    have hqp : q ≠ p := fun h => hp q List.mem_cons_self (h ▸ Below.refl q)
    by_cases hswallow : working.get q ≠ none ∧ Below p q ∧ Unbroken b p (parentForestPath q)
    · -- the refolding reaches the row and makes it a directory
      obtain ⟨hw, hbelow, hrows⟩ := hswallow
      obtain ⟨row, hw'⟩ := Option.ne_none_iff_exists'.mp hw
      have hspec := foldLeaf1_spec sha256 b hw'
      rw [← Partition.get_path hw'] at hbelow hrows hqp
      have hroot : row.path ≠ SUPER_ROOT := fun h => hqp ((h ▸ hbelow).eq_nil ▸ h)
      have habove : Below p (parentForestPath row.path) :=
        hbelow.eq_or_above.resolve_left fun h => hqp h.symm
      obtain ⟨-, m, -, hm⟩ := hspec.above p hroot habove hrows
      have hout : p ∉ paths := fun h => hp p (List.mem_cons_of_mem q h) (Below.refl p)
      have hstays : ∃ m', (foldRows sha256 working (foldLeaf1 sha256 working b q) paths).get p =
          some m' ∧ m'.isDir = true := foldRows_dir_of_notMem hout ⟨_, hm, rfl⟩
      obtain ⟨m', hm', hdir⟩ := hstays
      refine iff_of_false (fun h => ?_) fun h => h ⟨q, List.mem_cons_self, ?_⟩
      · have hsame := h.symm.trans hm'
        cases hsame
        rw [hleaf] at hdir
        cases hdir
      · have hpath := Partition.get_path hw'
        rw [hpath] at hbelow hqp hrows
        refine ⟨hbelow, hqp, hw, fun y hy hyq hne => Or.inl (hrows y hy ?_)⟩
        exact hyq.eq_or_above.resolve_left hne
    · have hkept : (foldLeaf1 sha256 working b q).get p = some n := by
        cases hw : working.get q with
        | none => rw [foldLeaf1_of_none hw, hrow]
        | some row =>
          have hpath := Partition.get_path hw
          rcases (foldLeaf1_spec sha256 b hw).others p (by rw [hpath]; exact hqp.symm) with
            hk | ⟨hbelow, hrows, -⟩
          · exact hk.1.trans hrow
          · rw [hpath] at hbelow hrows
            exact absurd ⟨by rw [hw]; simp, hbelow, hrows⟩ hswallow
      refine (ih (b := foldLeaf1 sha256 working b q) hlater.2
        (fun r hr => hp r (List.mem_cons_of_mem q hr)) hkept).trans (not_congr ?_)
      -- with the row of `q` stored, the rows that bar the way are the same
      have hway (y : Str) : (foldLeaf1 sha256 working b q).get y ≠ none ∨
          (y ∈ paths ∧ working.get y ≠ none) ↔
            b.get y ≠ none ∨ (y ∈ q :: paths ∧ working.get y ≠ none) := by
        rw [foldLeaf1_present_iff, or_assoc, List.mem_cons]
        refine or_congr_right ⟨?_, ?_⟩
        · rintro (⟨rfl, hw⟩ | ⟨hy, hw⟩)
          · exact ⟨Or.inl rfl, hw⟩
          · exact ⟨Or.inr hy, hw⟩
        · rintro ⟨rfl | hy, hw⟩
          · exact Or.inl ⟨rfl, hw⟩
          · exact Or.inr ⟨hy, hw⟩
      constructor
      · rintro ⟨r, hr, hpr, hne, hw, hall⟩
        exact ⟨r, List.mem_cons_of_mem q hr, hpr, hne, hw,
          fun y hy hyr hyne => (hway y).mp (hall y hy hyr hyne)⟩
      · rintro ⟨r, hr, hpr, hne, hw, hall⟩
        rcases List.mem_cons.mp hr with rfl | hr
        · refine absurd ⟨hw, hpr, fun y hy hyr => ?_⟩ hswallow
          have hne' : y ≠ r := by
            rintro rfl
            have hroot : y ≠ SUPER_ROOT := by
              rintro rfl
              exact hne hpr.eq_nil.symm
            exact absurd hyr.length_le (Nat.not_le_of_lt (length_parent_lt hroot))
          obtain ⟨row, hrow'⟩ := Option.ne_none_iff_exists'.mp hw
          have hyr' : Below y r := hyr.trans (Partition.get_path hrow' ▸ row.below_parent)
          refine (hall y hy hyr' hne').resolve_right fun ⟨hmem, _⟩ => ?_
          exact hlater.1 y ((List.mem_cons.mp hmem).resolve_left hne') hyr'
        · exact ⟨r, hr, hpr, hne, hw, fun y hy hyr hyne => (hway y).mpr (hall y hy hyr hyne)⟩

/-- A leaf that a series stores is what it leaves unless a later fold swallows it. -/
theorem foldRows_leaf_iff (htop : TopDown paths) (hp : p ∈ paths) (hrow : working.get p = some n)
    (hleaf : n.isDir = false) :
    (foldRows sha256 working b paths).get p = some n ↔ ¬ Swallowed working b (· ∈ paths) p := by
  obtain ⟨before, later, rfl⟩ := List.append_of_mem hp
  obtain ⟨-, hlater, hcross⟩ := List.pairwise_append.mp htop
  obtain ⟨hfirst, htop'⟩ := List.pairwise_cons.mp hlater
  have hstored := (foldLeaf1_spec sha256 (foldRows sha256 working b before) hrow).stored
  rw [Partition.get_path hrow] at hstored
  have hsplit : foldRows sha256 working b (before ++ p :: later) = foldRows sha256 working
      (foldLeaf1 sha256 working (foldRows sha256 working b before) p) later := by
    rw [foldRows, List.foldl_append, List.foldl_cons]
    rfl
  rw [hsplit]
  refine (leaf_survives_iff htop' hfirst hstored hleaf).trans (not_congr ?_)
  have hway (y : Str) : (foldLeaf1 sha256 working (foldRows sha256 working b before) p).get y ≠ none ∨
      (y ∈ later ∧ working.get y ≠ none) ↔
        b.get y ≠ none ∨ (y ∈ before ++ p :: later ∧ working.get y ≠ none) := by
    rw [foldLeaf1_present_iff, foldRows_present_iff, List.mem_append, List.mem_cons, or_assoc,
      or_assoc]
    refine or_congr_right ⟨?_, ?_⟩
    · rintro (⟨hy, hw⟩ | ⟨rfl, hw⟩ | ⟨hy, hw⟩)
      · exact ⟨Or.inl hy, hw⟩
      · exact ⟨Or.inr (Or.inl rfl), hw⟩
      · exact ⟨Or.inr (Or.inr hy), hw⟩
    · rintro ⟨hy | rfl | hy, hw⟩
      · exact Or.inl ⟨hy, hw⟩
      · exact Or.inr (Or.inl ⟨rfl, hw⟩)
      · exact Or.inr (Or.inr ⟨hy, hw⟩)
  constructor
  · rintro ⟨q, hq, hpq, hne, hw, hall⟩
    exact ⟨q, List.mem_append_right _ (List.mem_cons_of_mem p hq), hpq, hne, hw,
      fun y hy hyq hyne => (hway y).mp (hall y hy hyq hyne)⟩
  · rintro ⟨q, hq, hpq, hne, hw, hall⟩
    rcases List.mem_append.mp hq with hq | hq
    · exact absurd hpq (hcross q hq p List.mem_cons_self)
    · exact ⟨q, (List.mem_cons.mp hq).resolve_left hne, hpq, hne, hw,
        fun y hy hyq hyne => (hway y).mpr (hall y hy hyq hyne)⟩

/-! ## The folds of a run -/

section

variable (E : Env) (w : World)

theorem foldLeafIntoBaseline_part {ls : List Level} (hnd : ls.Nodup) (st : Store) (p : Str)
    (l : Level) : (foldLeafIntoBaseline E p ls st).part .baseline l =
      if l ∈ ls then foldLeaf1 E.sha256 (st.part .working l) (st.part .baseline l) p
      else st.part .baseline l := by
  induction ls generalizing st with
  | nil => rfl
  | cons l' ls ih =>
    rw [List.nodup_cons] at hnd
    rw [foldLeafIntoBaseline, ih hnd.2]
    simp only [Store.part_setPart, true_and, reduceCtorEq, false_and, if_false]
    by_cases hl : l = l'
    · subst hl
      rw [if_neg hnd.1, if_pos rfl, if_pos List.mem_cons_self]
    · rw [if_neg hl]
      simp only [List.mem_cons, hl, false_or]

theorem foldLeafIntoBaseline_working (ls : List Level) (st : Store) (p : Str) (l : Level) :
    (foldLeafIntoBaseline E p ls st).part .working l = st.part .working l := by
  induction ls generalizing st with
  | nil => rfl
  | cons l' ls ih =>
    rw [foldLeafIntoBaseline, ih]
    simp

/-- Level by level, the outcomes of a run are folded one after the other. -/
theorem foldOutcomes_part {ls : List Level} (hnd : ls.Nodup) (os : List PolicyOutcome)
    (s : EngineState) (l : Level) : (foldOutcomes E w ls os s).store.part .baseline l =
      if l ∈ ls then foldRows E.sha256 (s.store.part .working l) (s.store.part .baseline l)
        (os.map (·.path))
      else s.store.part .baseline l := by
  induction os generalizing s with
  | nil => exact (ite_self _).symm
  | cons o os ih =>
    refine (ih _).trans ?_
    have hpart : (foldOutcome E w ls o s).store.part .baseline l = _ :=
      foldLeafIntoBaseline_part E hnd s.store o.path l
    have hwork : (foldOutcome E w ls o s).store.part .working l = _ :=
      foldLeafIntoBaseline_working E ls s.store o.path l
    rw [hpart, hwork]
    by_cases hl : l ∈ ls
    · simp only [if_pos hl]
      rfl
    · simp only [if_neg hl]

end

end HomelabMcp.Integrity
