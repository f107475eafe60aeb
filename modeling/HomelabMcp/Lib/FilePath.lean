import HomelabMcp.Lib.SlashPath

/-!
# Paths by their names

A path below a root is the list of the names on the way down. Strings are read by their
segments: an empty segment and `.` stay where they are, `..` goes up.

- `resolve_eq`: without a `..`, a string goes down by its names.
- `names_segments_text`: the string of a path is read back as the path.
-/

namespace HomelabMcp

namespace FilePath

def nulChar : Char := Char.ofNat 0

def here : Str := ['.']

def up : Str := ['.', '.']

/-- What an entry of a directory can be called. -/
def IsName (s : Str) : Prop :=
  s ≠ [] ∧ '/' ∉ s ∧ nulChar ∉ s ∧ s ≠ here ∧ s ≠ up

instance : DecidablePred IsName := fun s =>
  inferInstanceAs (Decidable (s ≠ [] ∧ '/' ∉ s ∧ nulChar ∉ s ∧ s ≠ here ∧ s ≠ up))

end FilePath

/-- The name of an entry of a directory. -/
abbrev FileName := {s : Str // FilePath.IsName s}

abbrev FilePath := List FileName

namespace FilePath

variable {root p q : FilePath} {s : Str} {segs : List Str}

def segments (s : Str) : List Str :=
  List.splitOn '/' s

def nameOf (s : Str) : Option FileName :=
  if h : IsName s then some ⟨s, h⟩ else none

/-- The names among some segments. -/
def names (segs : List Str) : FilePath :=
  segs.filterMap nameOf

/-- One segment further. -/
def push (p : FilePath) (s : Str) : FilePath :=
  if s = up then p.dropLast else p ++ (nameOf s).toList

/-- `path.resolve(root, s)`, for a string that does not start at the root of all. -/
def resolve (root : FilePath) (s : Str) : FilePath :=
  (segments s).foldl push root

/-- The names, with a slash between each two. -/
def text (p : FilePath) : Str :=
  ['/'].intercalate (p.map Subtype.val)

theorem nameOf_val (n : FileName) : nameOf n.val = some n :=
  dif_pos n.property

@[simp] theorem names_nil : names [] = [] := rfl

theorem names_cons (s : Str) (segs : List Str) :
    names (s :: segs) = (nameOf s).toList ++ names segs := by
  unfold names
  rw [List.filterMap_cons]
  cases nameOf s <;> rfl

theorem names_map_val (p : FilePath) : names (p.map Subtype.val) = p := by
  induction p with
  | nil => rfl
  | cons n p ih =>
    rw [List.map_cons, names_cons, nameOf_val, ih]
    rfl

theorem foldl_push (h : up ∉ segs) : segs.foldl push root = root ++ names segs := by
  induction segs generalizing root with
  | nil => exact (List.append_nil root).symm
  | cons s segs ih =>
    rw [List.mem_cons, not_or] at h
    rw [List.foldl_cons, ih h.2, names_cons]
    unfold push
    rw [if_neg (Ne.symm h.1), List.append_assoc]

theorem resolve_eq (h : up ∉ segments s) : resolve root s = root ++ names (segments s) :=
  foldl_push h

theorem segments_slash (a b : Str) : segments (a ++ '/' :: b) = segments a ++ segments b :=
  List.splitOn_append_cons_self a b

theorem segments_of_notMem (h : '/' ∉ s) : segments s = [s] :=
  List.splitOn_eq_singleton h

theorem intercalate_append {l m : List Str} (hl : l ≠ []) (hm : m ≠ []) :
    ['/'].intercalate (l ++ m) = ['/'].intercalate l ++ '/' :: ['/'].intercalate m := by
  induction l with
  | nil => exact absurd rfl hl
  | cons s l ih =>
    cases l with
    | nil =>
      rw [List.singleton_append, List.intercalate_cons_of_ne_nil hm, List.intercalate_singleton]
      exact List.append_assoc s ['/'] _
    | cons t l =>
      have htail := ih (List.cons_ne_nil t l)
      rw [List.cons_append, List.cons_append, List.intercalate_cons_cons, ← List.cons_append, htail,
        List.intercalate_cons_cons, List.append_assoc, List.append_assoc, List.append_assoc]

theorem segments_injective {a b : Str} (h : segments a = segments b) : a = b := by
  have hjoin (s : Str) : ['/'].intercalate (segments s) = s := List.intercalate_splitOn '/'
  rw [← hjoin a, ← hjoin b, h]

/-- A string that is another one, or goes on from it after a slash, goes on from
its segments. -/
theorem eq_or_slash_prefix_iff {r q : Str} :
    (r = q ∨ q ++ ['/'] <+: r) ↔ segments q <+: segments r := by
  constructor
  · rintro (rfl | ⟨rest, rfl⟩)
    · exact List.prefix_refl _
    · rw [List.append_assoc]
      show segments q <+: segments (q ++ '/' :: rest)
      rw [segments_slash]
      exact List.prefix_append _ _
  · rintro ⟨l, hl⟩
    by_cases hnil : l = []
    · subst hnil
      rw [List.append_nil] at hl
      exact Or.inl (segments_injective hl).symm
    · right
      refine ⟨['/'].intercalate l, ?_⟩
      have hr : r = ['/'].intercalate (segments q ++ l) := by
        rw [hl]
        exact (List.intercalate_splitOn '/').symm
      have hq : ['/'].intercalate (segments q) = q := List.intercalate_splitOn '/'
      have hne : segments q ≠ [] := List.splitOn_ne_nil '/' q
      rw [hr, intercalate_append hne hnil, hq, List.append_assoc]
      rfl

theorem slash_notMem_of_mem_segments {a : Str} (h : s ∈ segments a) : '/' ∉ s :=
  SlashPath.notMem_of_mem_splitOn h

theorem infix_of_mem_intercalate {l : List Str} (h : s ∈ l) :
    s <:+: ['/'].intercalate l := by
  obtain ⟨l₁, l₂, rfl⟩ := List.append_of_mem h
  have hsuffix : s <:+: ['/'].intercalate (s :: l₂) := by
    cases l₂ with
    | nil => rw [List.intercalate_singleton]
    | cons t l₂ =>
      rw [List.intercalate_cons_cons, List.append_assoc]
      exact (List.prefix_append _ _).isInfix
  cases l₁ with
  | nil => exact hsuffix
  | cons t l₁ =>
    rw [intercalate_append (List.cons_ne_nil t l₁) (List.cons_ne_nil s l₂)]
    exact hsuffix.trans ((List.suffix_cons _ _).trans (List.suffix_append _ _)).isInfix

theorem infix_of_mem_segments {a : Str} (h : s ∈ segments a) : s <:+: a := by
  have hwithin := infix_of_mem_intercalate h
  unfold segments at hwithin
  rwa [List.intercalate_splitOn] at hwithin

theorem segments_text (h : p ≠ []) : segments (text p) = p.map Subtype.val := by
  refine List.splitOn_intercalate '/' ?_ (fun hnil => h (List.map_eq_nil_iff.mp hnil))
  intro l hl
  obtain ⟨n, -, rfl⟩ := List.mem_map.mp hl
  exact n.property.2.1

/-- The string of a path is read back. -/
theorem names_segments_text (p : FilePath) : names (segments (text p)) = p := by
  by_cases h : p = []
  · subst h
    rfl
  · rw [segments_text h, names_map_val]

theorem text_injective : Function.Injective text := fun p q h => by
  rw [← names_segments_text p, h, names_segments_text q]

theorem up_notMem_segments_text (p : FilePath) : up ∉ segments (text p) := by
  by_cases h : p = []
  · subst h
    decide
  · rw [segments_text h]
    intro hmem
    obtain ⟨n, -, heq⟩ := List.mem_map.mp hmem
    exact n.property.2.2.2.2 heq

theorem text_cons_cons (n m : FileName) (p : FilePath) :
    text (n :: m :: p) = n.val ++ '/' :: text (m :: p) := by
  unfold text
  rw [List.map_cons, List.map_cons, List.intercalate_cons_cons, List.append_assoc]
  rfl

theorem text_singleton (n : FileName) : text [n] = n.val := by
  simp [text]

theorem text_append (hp : p ≠ []) (hq : q ≠ []) : text (p ++ q) = text p ++ '/' :: text q := by
  induction p with
  | nil => exact absurd rfl hp
  | cons n p ih =>
    cases p with
    | nil =>
      obtain ⟨m, q, rfl⟩ := List.exists_cons_of_ne_nil hq
      rw [text_singleton]
      exact text_cons_cons n m q
    | cons m p =>
      show text (n :: m :: (p ++ q)) = _
      have htail : text (m :: (p ++ q)) = text (m :: p) ++ '/' :: text q :=
        ih (List.cons_ne_nil m p)
      rw [text_cons_cons, text_cons_cons, htail, List.append_assoc, List.cons_append]

theorem nul_notMem_text (p : FilePath) : nulChar ∉ text p := by
  induction p with
  | nil => exact List.not_mem_nil
  | cons n p ih =>
    cases p with
    | nil =>
      rw [text_singleton]
      exact n.property.2.2.1
    | cons m p =>
      rw [text_cons_cons, List.mem_append, List.mem_cons]
      rintro (h | h | h)
      · exact n.property.2.2.1 h
      · exact absurd h (by decide)
      · exact ih h

/-- A path has no slash at its head. -/
theorem head_text (p : FilePath) : (text p).head? ≠ some '/' := by
  have hname : ∀ (n : FileName) (l : Str), (n.val ++ l).head? ≠ some '/' := by
    intro n l heq
    obtain ⟨c, s, hs⟩ := List.exists_cons_of_ne_nil n.property.1
    rw [hs, List.cons_append] at heq
    have hc : c = '/' := Option.some.inj heq
    exact n.property.2.1 (hs ▸ hc ▸ List.mem_cons_self)
  cases p with
  | nil => exact nofun
  | cons n p =>
    cases p with
    | nil =>
      rw [text_singleton, ← List.append_nil n.val]
      exact hname n []
    | cons m p =>
      rw [text_cons_cons]
      exact hname n _

end FilePath

end HomelabMcp
