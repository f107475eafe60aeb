import Mathlib.Data.List.Infix

/-!
# Slash-separated paths as strings

A path is the string of its characters. `parent` and `leaf` cut it at its last
`/` (a string without one has the empty path as its parent), `join` puts a
segment below a path, and the empty path is the root above all.

- `parent_join`, `leaf_join`: a joined path comes apart again when the segment
  has no slash.
- `join_parent_leaf`: every path but the empty one is its leaf joined to its
  parent, unless it starts with a slash.
- `Below a p`: `p` is reached from `a` by joining segments.
  `below_iff_slash`: for a nonempty `a` this is the string test "equal, or
  starts with `a/`".
-/

namespace HomelabMcp

/-- A string of a scripting runtime, as its characters. -/
abbrev Str := List Char

instance : LawfulBEq Str := inferInstance

namespace SlashPath

/-- The pieces between the separators have none. -/
theorem notMem_of_mem_splitOn {sep : Char} {s piece : Str} (h : piece ∈ List.splitOn sep s) :
    sep ∉ piece := by
  induction s generalizing piece with
  | nil =>
    rw [List.splitOn_nil, List.mem_singleton] at h
    rw [h]
    exact List.not_mem_nil
  | cons c s ih =>
    rw [List.splitOn_cons_eq_if_modifyHead] at h
    split at h
    · rcases List.mem_cons.mp h with rfl | h
      · exact List.not_mem_nil
      · exact ih h
    · next hc =>
      -- the first piece grows by a character that is not the separator
      obtain ⟨first, rest, hsplit⟩ := List.exists_cons_of_ne_nil (List.splitOn_ne_nil sep s)
      rw [hsplit, List.modifyHead_cons] at h
      rcases List.mem_cons.mp h with rfl | h
      · rw [List.mem_cons, not_or]
        exact ⟨fun heq => hc (beq_iff_eq.mpr heq.symm), ih (hsplit ▸ List.mem_cons_self)⟩
      · exact ih (hsplit ▸ List.mem_cons_of_mem first h)

/-- Split at the last `/`. -/
def cutLast : Str → Option (Str × Str)
  | [] => none
  | c :: l =>
    match cutLast l with
    | some (a, b) => some (c :: a, b)
    | none => if c = '/' then some ([], l) else none

/-- What stands before the last `/`; empty without one. -/
def parent (p : Str) : Str :=
  (cutLast p).elim [] Prod.fst

/-- What stands after the last `/`; everything without one. -/
def leaf (p : Str) : Str :=
  (cutLast p).elim p Prod.snd

/-- The segment `n` below the path `p`. -/
def join (p n : Str) : Str :=
  if p = [] then n else p ++ '/' :: n

theorem cutLast_eq_none_iff {p : Str} : cutLast p = none ↔ '/' ∉ p := by
  induction p with
  | nil => simp [cutLast]
  | cons c l ih =>
    unfold cutLast
    cases h : cutLast l with
    | some ab =>
      have : '/' ∈ l := by
        by_contra hn
        rw [ih.mpr hn] at h
        cases h
      simp [this]
    | none =>
      have := ih.mp h
      by_cases hc : c = '/'
      · simp [hc]
      · simp [hc, Ne.symm hc, this]

theorem cutLast_append {a b : Str} (hb : '/' ∉ b) : cutLast (a ++ '/' :: b) = some (a, b) := by
  induction a with
  | nil =>
    show cutLast ('/' :: b) = _
    unfold cutLast
    rw [cutLast_eq_none_iff.mpr hb]
    rfl
  | cons c a ih =>
    show cutLast (c :: (a ++ '/' :: b)) = _
    unfold cutLast
    rw [ih]

theorem cutLast_eq_some_iff {p a b : Str} :
    cutLast p = some (a, b) ↔ p = a ++ '/' :: b ∧ '/' ∉ b := by
  refine ⟨?_, fun ⟨hp, hb⟩ => hp ▸ cutLast_append hb⟩
  induction p generalizing a b with
  | nil => simp [cutLast]
  | cons c l ih =>
    unfold cutLast
    cases h : cutLast l with
    | some ab =>
      obtain ⟨a', b'⟩ := ab
      obtain ⟨hl, hb'⟩ := ih h
      rintro ⟨rfl, rfl⟩
      exact ⟨by rw [hl, List.cons_append], hb'⟩
    | none =>
      have hl := cutLast_eq_none_iff.mp h
      by_cases hc : c = '/'
      · simp only [hc, if_true]
        rintro ⟨rfl, rfl⟩
        exact ⟨rfl, hl⟩
      · simp [hc]

theorem slash_notMem_leaf (p : Str) : '/' ∉ leaf p := by
  unfold leaf
  cases h : cutLast p with
  | none => exact cutLast_eq_none_iff.mp h
  | some ab => exact (cutLast_eq_some_iff.mp h).2

theorem cutLast_join {p n : Str} (hn : '/' ∉ n) :
    cutLast (join p n) = if p = [] then none else some (p, n) := by
  unfold join
  split
  · exact cutLast_eq_none_iff.mpr hn
  · exact cutLast_append hn

@[simp] theorem parent_join {p n : Str} (hn : '/' ∉ n) : parent (join p n) = p := by
  unfold parent
  rw [cutLast_join hn]
  split
  · rename_i h
    exact h.symm
  · rfl

@[simp] theorem leaf_join {p n : Str} (hn : '/' ∉ n) : leaf (join p n) = n := by
  unfold leaf
  rw [cutLast_join hn]
  split
  · rename_i h
    show join p n = n
    rw [h]
    rfl
  · rfl

theorem join_parent_leaf {p : Str} (hp : p.head? ≠ some '/') : join (parent p) (leaf p) = p := by
  unfold parent leaf
  cases h : cutLast p with
  | none => rfl
  | some ab =>
    obtain ⟨a, b⟩ := ab
    obtain ⟨rfl, -⟩ := cutLast_eq_some_iff.mp h
    cases a with
    | nil => exact absurd rfl hp
    | cons c a => rfl

theorem length_parent_lt {p : Str} (hp : p ≠ []) : (parent p).length < p.length := by
  unfold parent
  cases h : cutLast p with
  | none => exact List.length_pos_iff.mpr hp
  | some ab =>
    obtain ⟨rfl, -⟩ := cutLast_eq_some_iff.mp h
    simp

@[simp] theorem parent_nil : parent [] = [] := rfl

/-- A parent starts as its child does. -/
theorem head_parent {p : Str} (hp : p.head? ≠ some '/') : (parent p).head? ≠ some '/' := by
  unfold parent
  cases h : cutLast p with
  | none => simp
  | some ab =>
    obtain ⟨a, b⟩ := ab
    obtain ⟨rfl, -⟩ := cutLast_eq_some_iff.mp h
    cases a with
    | nil => simp
    | cons c a => simpa using hp

theorem join_ne_nil {p n : Str} (h : p ≠ [] ∨ n ≠ []) : join p n ≠ [] := by
  unfold join
  split
  · rename_i hp
    exact h.resolve_left fun hne => hne hp
  · simp

/-! ## Descendants -/

/-- Join segments one below the other. -/
def descend (a : Str) (names : List Str) : Str :=
  names.foldl join a

@[simp] theorem descend_nil (a : Str) : descend a [] = a := rfl

@[simp] theorem descend_cons (a n : Str) (names : List Str) :
    descend a (n :: names) = descend (join a n) names := rfl

theorem descend_concat (a n : Str) (names : List Str) :
    descend a (names ++ [n]) = join (descend a names) n := by
  unfold descend
  rw [List.foldl_append]
  rfl

/-- `p` is `a` or lies under it. -/
def Below (a p : Str) : Prop :=
  ∃ names : List Str, (∀ n ∈ names, '/' ∉ n) ∧ p = descend a names

theorem Below.refl (a : Str) : Below a a := ⟨[], by simp, rfl⟩

theorem Below.trans {a b c : Str} (h₁ : Below a b) (h₂ : Below b c) : Below a c := by
  obtain ⟨ns, hns, rfl⟩ := h₁
  obtain ⟨ms, hms, rfl⟩ := h₂
  refine ⟨ns ++ ms, fun n hn => ?_, ?_⟩
  · rcases List.mem_append.mp hn with hn | hn
    · exact hns n hn
    · exact hms n hn
  · unfold descend
    rw [List.foldl_append]

theorem Below.join {a p n : Str} (h : Below a p) (hn : '/' ∉ n) : Below a (join p n) :=
  h.trans ⟨[n], by simpa using hn, rfl⟩

theorem Below.join_self {a n : Str} (hn : '/' ∉ n) : Below a (SlashPath.join a n) :=
  (Below.refl a).join hn

/-- Everything below a path is the path or lies below its parent's other end. -/
theorem Below.cases {a p : Str} (h : Below a p) : p = a ∨ (p = SlashPath.join (parent p) (leaf p) ∧
    Below a (parent p)) := by
  obtain ⟨names, hnames, rfl⟩ := h
  rcases List.eq_nil_or_concat names with rfl | ⟨ns, n, rfl⟩
  · exact Or.inl rfl
  · right
    have hn : '/' ∉ n := hnames n (by simp)
    rw [List.concat_eq_append, descend_concat, parent_join hn, leaf_join hn]
    exact ⟨rfl, ns, fun m hm => hnames m (by simp [hm]), rfl⟩

theorem below_descend_slash {a : Str} (ha : a ≠ []) {names : List Str} (h : names ≠ []) :
    a ++ ['/'] <+: descend a names := by
  induction names generalizing a with
  | nil => exact absurd rfl h
  | cons n names ih =>
    have hj : SlashPath.join a n = a ++ '/' :: n := by
      unfold SlashPath.join
      rw [if_neg ha]
    rw [descend_cons]
    rcases names with _ | ⟨m, names⟩
    · rw [descend_nil, hj]
      exact ⟨n, by simp⟩
    · refine List.IsPrefix.trans ?_ (ih (by rw [hj]; simp) (by simp))
      rw [hj]
      exact ⟨n ++ ['/'], by simp⟩

/-- For a nonempty path, lying below it is the string test the stores use. -/
theorem below_iff_slash {a p : Str} (ha : a ≠ []) :
    Below a p ↔ p = a ∨ a ++ ['/'] <+: p := by
  constructor
  · rintro ⟨names, -, rfl⟩
    by_cases h : names = []
    · exact Or.inl (by rw [h]; rfl)
    · exact Or.inr (below_descend_slash ha h)
  · rintro (rfl | ⟨t, rfl⟩)
    · exact Below.refl p
    · -- the rest of the string is a list of segments, by its length
      induction hlen : t.length using Nat.strong_induction_on generalizing t with
      | _ k ih =>
        cases hcut : cutLast t with
        | none =>
          have ht := cutLast_eq_none_iff.mp hcut
          have hj : SlashPath.join a t = a ++ ['/'] ++ t := by
            unfold SlashPath.join
            rw [if_neg ha]
            simp
          rw [← hj]
          exact Below.join_self ht
        | some xy =>
          obtain ⟨x, y⟩ := xy
          obtain ⟨rfl, hy⟩ := cutLast_eq_some_iff.mp hcut
          have hx := ih x.length (by subst hlen; simp) x rfl
          have hj : SlashPath.join (a ++ ['/'] ++ x) y = a ++ ['/'] ++ (x ++ '/' :: y) := by
            unfold SlashPath.join
            rw [if_neg (by simp)]
            simp
          rw [← hj]
          exact hx.join hy

theorem Below.length_le {a p : Str} (h : Below a p) : a.length ≤ p.length := by
  obtain ⟨names, -, rfl⟩ := h
  induction names generalizing a with
  | nil => exact Nat.le_refl _
  | cons n names ih =>
    refine Nat.le_trans ?_ ih
    unfold SlashPath.join
    split
    · rename_i ha
      rw [ha]
      exact Nat.zero_le _
    · simp

theorem Below.ne_nil {a p : Str} (ha : a ≠ []) (h : Below a p) : p ≠ [] := by
  have hlen := h.length_le
  have hpos := List.length_pos_iff.mpr ha
  exact List.length_pos_iff.mp (Nat.lt_of_lt_of_le hpos hlen)

theorem Below.isPrefix {a p : Str} (h : Below a p) : a <+: p := by
  by_cases ha : a = []
  · rw [ha]
    exact List.nil_prefix
  · rcases (below_iff_slash ha).mp h with rfl | hp
    · exact List.prefix_rfl
    · exact (List.prefix_append a ['/']).trans hp

theorem Below.antisymm {a p : Str} (h : Below a p) (h' : Below p a) : a = p :=
  h.isPrefix.eq_of_length (Nat.le_antisymm h.length_le h'.length_le)

/-- Nothing lies between a path and its parent. -/
theorem Below.eq_or_above {a p : Str} (h : Below a p) : a = p ∨ Below a (parent p) :=
  h.cases.imp Eq.symm And.right

theorem Below.eq_nil {a : Str} (h : Below a []) : a = [] :=
  List.length_eq_zero_iff.mp (Nat.le_zero.mp h.length_le)

/-- A relative path lies below the root. -/
theorem below_root {p : Str} (hp : p.head? ≠ some '/') : Below [] p := by
  induction hlen : p.length using Nat.strong_induction_on generalizing p with
  | _ k ih =>
    by_cases hnil : p = []
    · rw [hnil]
      exact Below.refl []
    · have hpar := ih (parent p).length (hlen ▸ length_parent_lt hnil) (head_parent hp) rfl
      have := hpar.join (slash_notMem_leaf p)
      rwa [join_parent_leaf hp] at this

end SlashPath

end HomelabMcp
