import HomelabMcp.Lib.KeyedList
import HomelabMcp.Integrity.Folding

/-!
# The node store (nodeStore.ts)

Row storage for the Merkle forest, one partition for each tree and level. Every
stored row knows that its path lies in the forest's namespace and that its
parent column is the one its path gives: all code that builds rows sets it so.

The two implementations of the interface differ in one place that the engine
can see, the test "at or under a scope", so the operations take that test as an
argument (`under path scope`): `memoryUnder` and `sqliteUnder` are the two, and
`ScopeLaws` is what both satisfy.
-/

namespace HomelabMcp.Integrity

open SlashPath SortKey Text

inductive Level
  | l1
  | l2
  | l3
  deriving DecidableEq, Repr

inductive TreeKind
  | baseline
  | working
  deriving DecidableEq, Repr

/-- nodeStore.ts:21. -/
def LEVELS : List Level := [.l1, .l2, .l3]

/-! ## Forest paths -/

/-- The path above every forest root (tree.ts:26). -/
def SUPER_ROOT : Str := []

/-- tree.ts:51. -/
def parentForestPath (path : Str) : Str :=
  parent path

/-- tree.ts:57. -/
def leafName (path : Str) : Str :=
  leaf path

def hostPrefix : Str := "host".toList

def pctGroup : Str := "pct".toList

/-- A path of the forest's namespace. -/
def Rooted (p : Str) : Prop :=
  p = SUPER_ROOT ∨ p = hostPrefix ∨ hostPrefix ++ ['/'] <+: p ∨ p = pctGroup ∨
    pctGroup ++ ['/'] <+: p

instance (p : Str) : Decidable (Rooted p) := by
  unfold Rooted
  infer_instance

theorem rooted_iff_below {p : Str} :
    Rooted p ↔ p = SUPER_ROOT ∨ Below hostPrefix p ∨ Below pctGroup p := by
  unfold Rooted
  rw [below_iff_slash (by decide), below_iff_slash (by decide), or_assoc]

theorem Rooted.below {a p : Str} (ha : Rooted a) (hne : a ≠ SUPER_ROOT) (h : Below a p) :
    Rooted p := by
  rw [rooted_iff_below] at ha ⊢
  rcases ha with rfl | ha | ha
  · exact absurd rfl hne
  · exact Or.inr (Or.inl (ha.trans h))
  · exact Or.inr (Or.inr (ha.trans h))

theorem Rooted.head {p : Str} (h : Rooted p) : p.head? ≠ some '/' := by
  rcases h with rfl | rfl | ⟨t, rfl⟩ | rfl | ⟨t, rfl⟩ <;> simp [SUPER_ROOT, hostPrefix, pctGroup]

theorem Rooted.parent {p : Str} (h : Rooted p) : Rooted (parentForestPath p) := by
  rw [rooted_iff_below] at h ⊢
  rcases h with rfl | h | h
  · exact Or.inl rfl
  · rcases h.cases with rfl | ⟨-, hpar⟩
    · exact Or.inl rfl
    · exact Or.inr (Or.inl hpar)
  · rcases h.cases with rfl | ⟨-, hpar⟩
    · exact Or.inl rfl
    · exact Or.inr (Or.inr hpar)

/-! ## Rows -/

/-- nodeStore.ts:23. -/
structure StoredNode where
  path : Str
  hash : Str
  state : NodeState
  mtime : Option Int
  parentPath : Option Str
  childNames : Option (List Str)
  rooted : Rooted path
  parent_eq : parentPath = if path = SUPER_ROOT then none else some (parentForestPath path)
  deriving DecidableEq

/-- Directories list their children; a file leaf has no list. -/
def StoredNode.isDir (n : StoredNode) : Bool :=
  n.childNames.isSome

theorem StoredNode.parentPath_eq_some {n : StoredNode} {p : Str} :
    n.parentPath = some p ↔ n.path ≠ SUPER_ROOT ∧ parentForestPath n.path = p := by
  rw [n.parent_eq]
  split <;> simp_all

/-- A row that is not the super-root is its name joined to its parent. -/
theorem StoredNode.path_eq_join (n : StoredNode) :
    n.path = join (parentForestPath n.path) (leafName n.path) :=
  (join_parent_leaf n.rooted.head).symm

theorem StoredNode.path_of_parent {n : StoredNode} {p : Str} (h : n.parentPath = some p) :
    n.path = join p (leafName n.path) := by
  conv_lhs => rw [n.path_eq_join, (StoredNode.parentPath_eq_some.mp h).2]

/-! ## Partitions -/

/-- The rows of one tree at one level; the path is the key. -/
structure Partition where
  rows : List StoredNode
  nodup : (rows.map (·.path)).Nodup
  deriving DecidableEq

namespace Partition

def empty : Partition := ⟨[], List.nodup_nil⟩

def get (t : Partition) (path : Str) : Option StoredNode :=
  KeyedList.lookup (·.path) path t.rows

def pathKey (n : StoredNode) : List Nat :=
  codeUnits n.path

/-- The rows whose parent is `parentPath`, sorted by path. -/
def getChildren (t : Partition) (parentPath : Str) : List StoredNode :=
  sortOn pathKey (t.rows.filter fun n => n.parentPath = some parentPath)

/-- The rows at or under a scope, sorted by path. -/
def allUnder (under : Str → Str → Bool) (t : Partition) (scopePath : Str) : List StoredNode :=
  sortOn pathKey (t.rows.filter fun n => under n.path scopePath)

def upsertAll (t : Partition) (nodes : List StoredNode) : Partition where
  rows := KeyedList.upsertAll (·.path) nodes t.rows
  nodup := KeyedList.nodup_upsertAll nodes t.nodup

def deleteUnder (under : Str → Str → Bool) (t : Partition) (scopePath : Str) : Partition where
  rows := t.rows.filter fun n => !under n.path scopePath
  nodup := t.nodup.sublist (List.filter_sublist.map _)

/-- Delete what is at or under the scope, then insert `nodes`. -/
def replaceSubtree (under : Str → Str → Bool) (t : Partition) (scopePath : Str)
    (nodes : List StoredNode) : Partition :=
  (t.deleteUnder under scopePath).upsertAll nodes

variable {t : Partition} {p q : Str} {n : StoredNode} {nodes : List StoredNode}

@[simp] theorem get_empty (p : Str) : empty.get p = none := rfl

theorem get_eq_some_iff : t.get p = some n ↔ n ∈ t.rows ∧ n.path = p :=
  KeyedList.lookup_eq_some_iff t.nodup

theorem get_path (h : t.get p = some n) : n.path = p :=
  (get_eq_some_iff.mp h).2

theorem get_of_mem (h : n ∈ t.rows) : t.get n.path = some n :=
  get_eq_some_iff.mpr ⟨h, rfl⟩

theorem mem_getChildren :
    n ∈ t.getChildren p ↔ t.get n.path = some n ∧ n.parentPath = some p := by
  unfold getChildren
  rw [mem_sortOn, List.mem_filter, get_eq_some_iff]
  simp

theorem mem_allUnder {under : Str → Str → Bool} :
    n ∈ t.allUnder under p ↔ t.get n.path = some n ∧ under n.path p := by
  unfold allUnder
  rw [mem_sortOn, List.mem_filter, get_eq_some_iff]
  simp

theorem allUnder_paths_nodup (under : Str → Str → Bool) (t : Partition) (p : Str) :
    ((t.allUnder under p).map (·.path)).Nodup :=
  ((sortOn_perm _ _).map _).nodup_iff.mpr (t.nodup.sublist (List.filter_sublist.map _))

@[simp] theorem get_upsert_one :
    (t.upsertAll [n]).get p = if n.path = p then some n else t.get p :=
  KeyedList.lookup_upsert p n t.rows

theorem get_upsertAll (h : (nodes.map (·.path)).Nodup) :
    (t.upsertAll nodes).get p = (KeyedList.lookup (·.path) p nodes).or (t.get p) :=
  KeyedList.lookup_upsertAll h p t.rows

@[simp] theorem get_deleteUnder {under : Str → Str → Bool} {scope : Str} :
    (t.deleteUnder under scope).get p = if under p scope then none else t.get p := by
  unfold get deleteUnder
  rw [KeyedList.lookup_filter t.nodup]
  cases h : KeyedList.lookup (·.path) p t.rows with
  | none => simp
  | some m =>
    have hp : m.path = p := KeyedList.key_of_lookup h
    rw [Option.filter_some, hp]
    cases under p scope <;> rfl

/-- Replacing a subtree by rows of its scope: inside, the new rows; outside, the
old ones. -/
theorem get_replaceSubtree {under : Str → Str → Bool} {scope : Str}
    (hnd : (nodes.map (·.path)).Nodup) :
    (t.replaceSubtree under scope (nodes.filter fun n => under n.path scope)).get p =
      if under p scope then KeyedList.lookup (·.path) p nodes else t.get p := by
  rw [replaceSubtree, get_upsertAll (hnd.sublist (List.filter_sublist.map _)), get_deleteUnder,
    KeyedList.lookup_filter hnd]
  cases hlook : KeyedList.lookup (·.path) p nodes with
  | none => cases under p scope <;> simp
  | some n =>
    have hp : n.path = p := KeyedList.key_of_lookup hlook
    rw [Option.filter_some, hp]
    cases under p scope <;> simp

/-- Two partitions with the same rows list the same children. -/
theorem getChildren_congr {t t' : Partition}
    (h : ∀ n, n.parentPath = some p → (t.get n.path = some n ↔ t'.get n.path = some n)) :
    t.getChildren p = t'.getChildren p := by
  refine sortOn_eq_of_perm _ ?_ ?_
  · refine (List.perm_ext_iff_of_nodup ?_ ?_).mpr fun n => ?_
    · exact (t.nodup.sublist (List.filter_sublist.map _)).of_map
    · exact (t'.nodup.sublist (List.filter_sublist.map _)).of_map
    · rw [List.mem_filter, List.mem_filter, decide_eq_true_iff]
      refine and_congr_left fun hn => ?_
      have := h n hn
      rwa [get_eq_some_iff, get_eq_some_iff, and_iff_left rfl, and_iff_left rfl] at this
  · have := (t.nodup.sublist ((List.filter_sublist
      (p := fun n => decide (n.parentPath = some p))).map _)).map codeUnits_injective
    rwa [List.map_map] at this

end Partition

/-! ## The store -/

/-- All rows: one partition for each tree and level. -/
structure Store where
  part : TreeKind → Level → Partition

namespace Store

def init : Store := ⟨fun _ _ => .empty⟩

def get (s : Store) (tree : TreeKind) (level : Level) (path : Str) : Option StoredNode :=
  (s.part tree level).get path

def getChildren (s : Store) (tree : TreeKind) (level : Level) (path : Str) : List StoredNode :=
  (s.part tree level).getChildren path

def setPart (s : Store) (tree : TreeKind) (level : Level) (t : Partition) : Store :=
  ⟨fun k l => if k = tree ∧ l = level then t else s.part k l⟩

section

variable (under : Str → Str → Bool)

def allUnder (s : Store) (tree : TreeKind) (level : Level) (scopePath : Str) : List StoredNode :=
  (s.part tree level).allUnder under scopePath

/-- nodeStore.ts:161. -/
def replaceSubtree (s : Store) (tree : TreeKind) (level : Level) (scopePath : Str)
    (nodes : List StoredNode) : Store :=
  s.setPart tree level ((s.part tree level).replaceSubtree under scopePath nodes)

/-- nodeStore.ts:173. -/
def surgicalUpdate (s : Store) (tree : TreeKind) (level : Level) (nodes : List StoredNode) :
    Store :=
  s.setPart tree level ((s.part tree level).upsertAll nodes)

/-- nodeStore.ts:181. -/
def promote (s : Store) (level : Level) (scopePath : Str) : Store :=
  s.setPart .baseline level ((s.part .baseline level).replaceSubtree under scopePath
    ((s.part .working level).rows.filter fun n => under n.path scopePath))

end

/-- nodeStore.ts:198, for all levels at once. -/
def clearWorking (s : Store) : Store :=
  ⟨fun k l => if k = .working then .empty else s.part k l⟩

@[simp] theorem part_setPart (s : Store) (k k' : TreeKind) (l l' : Level) (t : Partition) :
    (s.setPart k l t).part k' l' = if k' = k ∧ l' = l then t else s.part k' l' := rfl

@[simp] theorem part_clearWorking_baseline (s : Store) (l : Level) :
    s.clearWorking.part .baseline l = s.part .baseline l := rfl

end Store

/-! ## Scopes -/

/-- nodeStore.ts:219. -/
def memoryUnder (path scope : Str) : Bool :=
  decide (scope = ['/']) || decide (path = scope) || (scope ++ ['/']).isPrefixOf path

/-- `%` in a `LIKE` pattern: the rest matches somewhere further on. -/
def likeAny (rest : Str → Bool) : Str → Bool
  | [] => rest []
  | c :: t => rest (c :: t) || likeAny rest t

/-- Letters of the ASCII range without their case. -/
def caseFold (c : Char) : Nat :=
  if 65 ≤ c.toNat ∧ c.toNat ≤ 90 then c.toNat + 32 else c.toNat

/-- SQL `LIKE`: `%` any run, `_` any character, letters without regard to case. -/
def like : Str → Str → Bool
  | [] => fun t => t.isEmpty
  | c :: p =>
    if c = '%' then likeAny (like p)
    else fun
      | [] => false
      | d :: t => (decide (c = '_') || decide (caseFold c = caseFold d)) && like p t

/-- nodeStore.ts:93. -/
def sqliteUnder (path scope : Str) : Bool :=
  decide (scope = ['/']) || decide (path = scope) || like (scope ++ "/%".toList) path

/-- What both implementations promise of their scope test. -/
structure ScopeLaws (under : Str → Str → Bool) : Prop where
  whole : ∀ p, under p ['/'] = true
  self : ∀ p, under p p = true
  /-- Only the whole forest contains the super-root. -/
  root : ∀ scope, scope ≠ [] → under SUPER_ROOT scope = true → scope = ['/']
  down : ∀ p n scope, scope ≠ [] → p ≠ [] → under p scope = true → under (join p n) scope = true
  /-- Scopes without wildcards mean the subtree. -/
  subtree : ∀ p scope, Rooted p → scope = hostPrefix ∨
    (∃ vmid, scope = pctGroup ++ '/' :: numeral vmid) →
      (under p scope = true ↔ Below scope p)

theorem memoryUnder_eq_true {path scope : Str} : memoryUnder path scope = true ↔
    scope = ['/'] ∨ path = scope ∨ scope ++ ['/'] <+: path := by
  simp [memoryUnder, or_assoc]

theorem memoryUnder_laws : ScopeLaws memoryUnder where
  whole p := by simp [memoryUnder]
  self p := by simp [memoryUnder]
  root scope hs h := by
    rcases memoryUnder_eq_true.mp h with h | h | h
    · exact h
    · exact absurd h.symm hs
    · have := h.length_le
      simp [SUPER_ROOT] at this
  down p n scope hs hp h := by
    rw [memoryUnder_eq_true] at h ⊢
    have hjoin : join p n = p ++ '/' :: n := if_neg hp
    rcases h with h | rfl | h
    · exact Or.inl h
    · exact Or.inr (Or.inr ⟨n, by rw [hjoin]; simp⟩)
    · exact Or.inr (Or.inr (h.trans ⟨'/' :: n, by rw [hjoin]⟩))
  subtree p scope _ hs := by
    have hne : scope ≠ [] := by
      rcases hs with rfl | ⟨v, rfl⟩ <;> simp [hostPrefix, pctGroup]
    have hslash : scope ≠ ['/'] := by
      rcases hs with rfl | ⟨v, rfl⟩ <;> simp [hostPrefix, pctGroup]
    rw [memoryUnder_eq_true, below_iff_slash hne]
    simp [hslash]

theorem likeAny_intro {rest : Str → Bool} {t u : Str} (h : rest u = true) (hsuf : u <:+ t) :
    likeAny rest t = true := by
  induction t with
  | nil =>
    rw [List.suffix_nil.mp hsuf] at h
    exact h
  | cons c t ih =>
    rw [likeAny]
    rcases List.suffix_cons_iff.mp hsuf with rfl | hsuf
    · rw [h, Bool.true_or]
    · rw [ih hsuf, Bool.or_true]

theorem like_percent (t : Str) : like ['%'] t = true :=
  likeAny_intro (u := []) rfl List.nil_suffix

theorem likeAny_append {rest : Str → Bool} {u : Str}
    (hrest : ∀ t, rest t = true → rest (t ++ u) = true) {t : Str} (h : likeAny rest t = true) :
    likeAny rest (t ++ u) = true := by
  induction t with
  | nil => exact likeAny_intro (hrest [] h) List.suffix_rfl
  | cons c t ih =>
    rw [likeAny, Bool.or_eq_true] at h
    rw [List.cons_append, likeAny, Bool.or_eq_true]
    exact h.imp (hrest (c :: t)) ih

/-- A pattern that ends in `%` keeps matching when the text grows. -/
theorem like_append {p t : Str} (u : Str) (h : like (p ++ ['%']) t = true) :
    like (p ++ ['%']) (t ++ u) = true := by
  induction p generalizing t with
  | nil => exact like_percent _
  | cons c p ih =>
    rw [List.cons_append, like] at h ⊢
    by_cases hc : c = '%'
    · rw [if_pos hc] at h ⊢
      exact likeAny_append (fun t ht => ih ht) h
    · rw [if_neg hc] at h ⊢
      cases t with
      | nil => cases h
      | cons d t =>
        simp only [List.cons_append, Bool.and_eq_true] at h ⊢
        exact ⟨h.1, ih h.2⟩

/-- A pattern matches its own text. -/
theorem like_self_append (p u : Str) : like (p ++ ['%']) (p ++ u) = true := by
  induction p with
  | nil => exact like_percent _
  | cons c p ih =>
    rw [List.cons_append, List.cons_append, like]
    by_cases hc : c = '%'
    · rw [if_pos hc]
      exact likeAny_intro ih (List.suffix_cons c _)
    · rw [if_neg hc]
      simp [ih]

/-- The empty text matches no pattern with a plain character. -/
theorem like_nil {p : Str} (hp : '/' ∈ p) : like p [] = false := by
  induction p with
  | nil => cases hp
  | cons c p ih =>
    rw [like]
    split
    · rename_i hc
      subst hc
      exact ih (by simpa using hp)
    · rfl

/-- Without wildcards a pattern compares the text up to case. -/
theorem like_literal {p t : Str} (hp : ∀ c ∈ p, c ≠ '%' ∧ c ≠ '_')
    (h : like (p ++ ['%']) t = true) :
    ∃ front back, t = front ++ back ∧ front.map caseFold = p.map caseFold := by
  induction p generalizing t with
  | nil => exact ⟨[], t, rfl, rfl⟩
  | cons c p ih =>
    obtain ⟨hpercent, hunder⟩ := hp c List.mem_cons_self
    rw [List.cons_append, like, if_neg hpercent] at h
    cases t with
    | nil => cases h
    | cons d t =>
      simp only [hunder, decide_false, Bool.false_or, Bool.and_eq_true, decide_eq_true_eq] at h
      obtain ⟨front, back, rfl, hfront⟩ := ih (fun e he => hp e (List.mem_cons_of_mem c he)) h.2
      exact ⟨d :: front, back, rfl, by rw [List.map_cons, List.map_cons, h.1, hfront]⟩

theorem caseFold_inj_of_not_letter {c d : Char} (hd : d.toNat < 65)
    (h : caseFold c = caseFold d) : c = d := by
  refine Char.toNat_inj.mp ?_
  unfold caseFold at h
  split at h <;> split at h <;> omega

theorem map_caseFold_inj {s t : Str} (ht : ∀ d ∈ t, d.toNat < 65)
    (h : s.map caseFold = t.map caseFold) : s = t := by
  induction t generalizing s with
  | nil => exact List.map_eq_nil_iff.mp h
  | cons d t ih =>
    cases s with
    | nil => cases h
    | cons c s =>
      rw [List.map_cons, List.map_cons, List.cons.injEq] at h
      rw [caseFold_inj_of_not_letter (ht d List.mem_cons_self) h.1,
        ih (fun e he => ht e (List.mem_cons_of_mem d he)) h.2]

theorem toNat_lt_of_mem_numeral {vmid : Nat} {c : Char} (h : c ∈ numeral vmid) : c.toNat < 65 := by
  have := isDigit_of_mem_numeral h
  rw [Char.isDigit, Bool.and_eq_true, decide_eq_true_eq, decide_eq_true_eq] at this
  have h9 : c.toNat ≤ 57 := this.2
  omega

theorem like_host {p : Str} (hp : Rooted p) (h : like (hostPrefix ++ "/%".toList) p = true) :
    Below hostPrefix p := by
  obtain ⟨front, back, rfl, hfront⟩ :=
    like_literal (p := hostPrefix ++ ['/']) (by simp [hostPrefix]) (by simpa using h)
  have hlen := congrArg List.length hfront
  simp only [List.length_map, List.length_append, hostPrefix] at hlen
  have hhead : ∀ s : Str, front ++ back ≠ 'p' :: s := by
    intro s hs
    cases front with
    | nil => simp at hlen
    | cons c front =>
      rw [List.cons_append, List.cons.injEq] at hs
      rw [hs.1] at hfront
      have := (List.cons.injEq _ _ _ _ ▸ hfront).1
      exact absurd this (by decide)
  rw [rooted_iff_below] at hp
  rcases hp with hp | hp | hp
  · have := congrArg List.length hp
    simp [SUPER_ROOT] at this
    simp [this.1] at hlen
  · exact hp
  · rcases (below_iff_slash (by decide)).mp hp with hp | ⟨t, hp⟩
    · exact absurd hp (hhead _)
    · exact absurd hp.symm (hhead _)

theorem like_container {p : Str} {vmid : Nat} (hp : Rooted p)
    (h : like (pctGroup ++ '/' :: numeral vmid ++ "/%".toList) p = true) :
    Below (pctGroup ++ '/' :: numeral vmid) p := by
  obtain ⟨front, back, rfl, hfront⟩ :=
    like_literal (p := pctGroup ++ ['/'] ++ (numeral vmid ++ ['/'])) (by
      intro c hc
      have hgroup : ∀ c ∈ pctGroup ++ ['/'], c ≠ '%' ∧ c ≠ '_' := by simp [pctGroup]
      rcases List.mem_append.mp hc with hc | hc
      · exact hgroup c hc
      · rcases List.mem_append.mp hc with hc | hc
        · exact ⟨fun he => absurd (isDigit_of_mem_numeral (he ▸ hc)) (by decide),
            fun he => absurd (isDigit_of_mem_numeral (he ▸ hc)) (by decide)⟩
        · exact hgroup c (List.mem_append_right _ hc)) (by simpa using h)
  have hlen := congrArg List.length hfront
  simp only [List.length_map, List.length_append, pctGroup] at hlen
  have hhead : ∀ s : Str, front ++ back ≠ 'h' :: s := by
    intro s hs
    cases front with
    | nil => simp at hlen
    | cons c front =>
      rw [List.cons_append, List.cons.injEq] at hs
      rw [hs.1] at hfront
      have := (List.cons.injEq _ _ _ _ ▸ hfront).1
      exact absurd this (by decide)
  have hshort : 4 < (front ++ back).length := by
    rw [List.length_append, hlen]
    simp
    omega
  rw [rooted_iff_below] at hp
  rcases hp with hp | hp | hp
  · rw [hp] at hshort
    simp [SUPER_ROOT] at hshort
  · rcases (below_iff_slash (by decide)).mp hp with hp | ⟨t, hp⟩
    · exact absurd hp (hhead _)
    · exact absurd hp.symm (hhead _)
  · rcases (below_iff_slash (by decide)).mp hp with hp | ⟨t, ht⟩
    · rw [hp] at hshort
      simp [pctGroup] at hshort
    · -- the group's own characters are as stored; the rest has no letters
      rw [below_iff_slash (by simp [pctGroup])]
      right
      have htake : front.take 4 = pctGroup ++ ['/'] := by
        have hfour : 4 ≤ front.length := by
          rw [hlen]
          simp
        have hfront : (front ++ back).take 4 = front.take 4 := List.take_append_of_le_length hfour
        rw [← hfront, ← ht]
        rfl
      have hdrop : front.drop 4 = numeral vmid ++ ['/'] := by
        refine map_caseFold_inj (fun d hd => ?_) ?_
        · rcases List.mem_append.mp hd with hd | hd
          · exact toNat_lt_of_mem_numeral hd
          · rw [List.mem_singleton.mp hd]
            decide
        · rw [List.map_drop, hfront, ← List.map_drop]
          rfl
      rw [← List.take_append_drop 4 front, htake, hdrop]
      exact ⟨back, by simp⟩

theorem sqliteUnder_eq_true {path scope : Str} : sqliteUnder path scope = true ↔
    scope = ['/'] ∨ path = scope ∨ like (scope ++ "/%".toList) path = true := by
  simp [sqliteUnder, or_assoc]

theorem sqliteUnder_laws : ScopeLaws sqliteUnder where
  whole p := by simp [sqliteUnder]
  self p := by simp [sqliteUnder]
  root scope hs h := by
    rcases sqliteUnder_eq_true.mp h with h | h | h
    · exact h
    · exact absurd h.symm hs
    · rw [SUPER_ROOT, like_nil (by simp)] at h
      cases h
  down p n scope hs hp h := by
    rw [sqliteUnder_eq_true] at h ⊢
    have hjoin : join p n = p ++ '/' :: n := if_neg hp
    rcases h with h | rfl | h
    · exact Or.inl h
    · have := like_self_append (p ++ ['/']) n
      rw [hjoin]
      exact Or.inr (Or.inr (by simpa using this))
    · have := like_append (p := scope ++ ['/']) ('/' :: n) (by simpa using h)
      rw [hjoin]
      exact Or.inr (Or.inr (by simpa using this))
  subtree p scope hp hs := by
    have hslash : scope ≠ ['/'] := by
      rcases hs with rfl | ⟨v, rfl⟩ <;> simp [hostPrefix, pctGroup]
    have hne : scope ≠ [] := by
      rcases hs with rfl | ⟨v, rfl⟩ <;> simp [hostPrefix, pctGroup]
    rw [sqliteUnder_eq_true]
    constructor
    · rintro (h | rfl | h)
      · exact absurd h hslash
      · exact Below.refl p
      · rcases hs with rfl | ⟨v, rfl⟩
        · exact like_host hp h
        · exact like_container hp h
    · intro h
      rcases (below_iff_slash hne).mp h with rfl | ⟨t, rfl⟩
      · exact Or.inr (Or.inl rfl)
      · have := like_self_append (scope ++ ['/']) t
        exact Or.inr (Or.inr (by simpa using this))

/-- The implementations of the store interface: `MemoryNodeStore` and
`SqliteNodeStore`. -/
inductive StoreImpl
  | memory
  | sqlite
  deriving DecidableEq

def StoreImpl.under : StoreImpl → Str → Str → Bool
  | .memory => memoryUnder
  | .sqlite => sqliteUnder

theorem StoreImpl.laws (impl : StoreImpl) : ScopeLaws impl.under := by
  cases impl with
  | memory => exact memoryUnder_laws
  | sqlite => exact sqliteUnder_laws

end HomelabMcp.Integrity
