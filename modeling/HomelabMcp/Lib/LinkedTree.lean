import HomelabMcp.Lib.FilePath
import HomelabMcp.Lib.KeyedList

/-!
# File trees with symbolic links

Files, directories, symbolic links and what is none of these, each in its place below
the root. A name of a file is a string: it is walked segment by segment, and a link on
the way stands for its target. One name takes `maxLinks` links at most.

- `realpath_text`: a place above which there are directories only is reached by its own
  names.
- `fileAt_below`: below a file there is none.
- `found`: the files a walk down from a starting point finds, under the names it gives
  them. It follows no links.
-/

namespace HomelabMcp

open KeyedList FilePath

inductive Inode (β : Type)
  | file (content : β)
  | directory
  | link (target : Str)
  /-- A socket, a pipe or a device. -/
  | special

structure LinkedTree (β : Type) where
  entries : List (FilePath × Inode β)
  nodup : (entries.map Prod.fst).Nodup
  above : ∀ e ∈ entries, ∀ q, q <+: e.1 → q ≠ e.1 → q ≠ [] → (q, Inode.directory) ∈ entries
  not_root : ∀ e ∈ entries, e.1 ≠ []

namespace LinkedTree

variable {β : Type} {t : LinkedTree β} {p q r : FilePath} {b : β} {s : Str}
  {onLink : FilePath → Str → List Str → Option FilePath} {segs : List Str}

/-- What is in a place; the root is a directory. -/
def entry (t : LinkedTree β) (p : FilePath) : Option (Inode β) :=
  if p = [] then some .directory else (lookup Prod.fst p t.entries).map Prod.snd

theorem entry_nil : t.entry [] = some .directory :=
  if_pos rfl

theorem entry_eq_some_iff {i : Inode β} (hp : p ≠ []) :
    t.entry p = some i ↔ (p, i) ∈ t.entries := by
  unfold entry
  rw [if_neg hp, Option.map_eq_some_iff]
  constructor
  · rintro ⟨e, he, rfl⟩
    obtain ⟨hmem, rfl⟩ := (lookup_eq_some_iff t.nodup).mp he
    exact hmem
  · intro hmem
    exact ⟨(p, i), (lookup_eq_some_iff t.nodup).mpr ⟨hmem, rfl⟩, rfl⟩

/-- Above what there is, there are directories. -/
theorem entry_above {i : Inode β} (h : t.entry p = some i) (hq : q <+: p) (hne : q ≠ p) :
    t.entry q = some .directory := by
  by_cases hroot : q = []
  · rw [hroot, entry_nil]
  · have hp : p ≠ [] := by
      rintro rfl
      exact hroot (List.prefix_nil.mp hq)
    exact (entry_eq_some_iff hroot).mpr
      (t.above (p, i) ((entry_eq_some_iff hp).mp h) q hq hne hroot)

/-! ## Names -/

/-- Where one segment of a name leads. -/
inductive Stride
  | lost
  | place (p : FilePath)
  | link (target : Str)

/-- One segment on from `p`. -/
def stride (t : LinkedTree β) (p : FilePath) (s : Str) : Stride :=
  match t.entry p with
  | some .directory =>
    if s = [] ∨ s = here then .place p
    else if s = up then .place p.dropLast
    else
      match nameOf s with
      | none => .lost
      | some n =>
        match t.entry (p ++ [n]) with
        | none => .lost
        | some (.link target) => .link target
        | some _ => .place (p ++ [n])
  | _ => .lost

/-- Walk on from `p` by the segments. A link is handed on, with what is left to walk. -/
def walkFrom (t : LinkedTree β) (onLink : FilePath → Str → List Str → Option FilePath) :
    FilePath → List Str → Option FilePath
  | p, [] => some p
  | p, s :: segs =>
    match t.stride p s with
    | .lost => none
    | .place q => walkFrom t onLink q segs
    | .link target => onLink p target segs

/-- Where the walk of a string starts, from the working directory `cwd`. -/
def base (cwd : FilePath) (s : Str) : FilePath :=
  if s.head? = some '/' then [] else cwd

def follow (t : LinkedTree β) : Nat → FilePath → List Str → Option FilePath
  | 0 => t.walkFrom fun _ _ _ => none
  | links + 1 => t.walkFrom fun p target segs =>
    if target = [] then none else t.follow links (base p target) (segments target ++ segs)

def maxLinks : Nat := 40

/-- The place a name leads to. -/
def realpath (t : LinkedTree β) (cwd : FilePath) (s : Str) : Option FilePath :=
  if s = [] then none else t.follow maxLinks (base cwd s) (segments s)

/-- The content of the file that a name leads to. -/
def fileAt (t : LinkedTree β) (cwd : FilePath) (s : Str) : Option β :=
  match (t.realpath cwd s).bind t.entry with
  | some (.file b) => some b
  | _ => none

theorem fileAt_eq_some {cwd : FilePath} :
    t.fileAt cwd s = some b ↔ ∃ p, t.realpath cwd s = some p ∧ t.entry p = some (.file b) := by
  unfold fileAt
  constructor
  · intro h
    split at h
    · next c hbind =>
      cases h
      exact Option.bind_eq_some_iff.mp hbind
    · cases h
  · rintro ⟨p, hpath, hentry⟩
    rw [hpath, Option.bind_some, hentry]

theorem stride_blank (h : t.entry p = some .directory) : t.stride p [] = .place p := by
  unfold stride
  rw [h]
  exact if_pos (Or.inl rfl)

theorem stride_name (n : FileName) (h : t.entry p = some .directory) :
    t.stride p n.val =
      match t.entry (p ++ [n]) with
      | none => .lost
      | some (.link target) => .link target
      | some _ => .place (p ++ [n]) := by
  obtain ⟨hnil, -, -, hhere, hup⟩ := n.property
  unfold stride
  rw [h]
  dsimp only
  rw [if_neg (not_or.mpr ⟨hnil, hhere⟩), if_neg hup, nameOf_val]

theorem stride_of_not_link {i : Inode β} (n : FileName) (h : t.entry (p ++ [n]) = some i)
    (hlink : ∀ target, i ≠ .link target) : t.stride p n.val = .place (p ++ [n]) := by
  have hdir : t.entry p = some .directory := by
    refine entry_above h (List.prefix_append p [n]) fun heq => ?_
    exact List.cons_ne_nil n [] (List.append_cancel_left (heq.symm.trans (List.append_nil p).symm))
  rw [stride_name n hdir, h]
  cases i with
  | link target => exact absurd rfl (hlink target)
  | file b => rfl
  | directory => rfl
  | special => rfl

/-- Only from a directory a walk goes on. -/
theorem directory_of_stride (h : t.stride p s ≠ .lost) : t.entry p = some .directory := by
  unfold stride at h
  split at h
  · assumption
  · exact absurd rfl h

theorem walkFrom_place {segs : List Str} (h : t.stride p s = .place q) :
    t.walkFrom onLink p (s :: segs) = t.walkFrom onLink q segs := by
  rw [walkFrom, h]

theorem walkFrom_link {target : Str} (h : t.stride p s = .link target) :
    t.walkFrom onLink p (s :: segs) = onLink p target segs := by
  rw [walkFrom, h]

theorem walkFrom_lost (h : t.stride p s = .lost) : t.walkFrom onLink p (s :: segs) = none := by
  rw [walkFrom, h]

/-- Where there are directories only, a walk goes down by the names. -/
theorem walkFrom_names {i : Inode β} (h : t.entry (p ++ q) = some i)
    (hlink : ∀ target, i ≠ .link target) :
    t.walkFrom onLink p (q.map Subtype.val) = some (p ++ q) := by
  induction q generalizing p with
  | nil => exact congrArg some (List.append_nil p).symm
  | cons n q ih =>
    have happ : p ++ n :: q = (p ++ [n]) ++ q := by rw [List.append_assoc, List.singleton_append]
    have hstride : t.stride p n.val = .place (p ++ [n]) := by
      by_cases hq : q = []
      · subst hq
        exact stride_of_not_link n h hlink
      · refine stride_of_not_link n (entry_above h ?_ ?_) nofun
        · exact happ ▸ List.prefix_append _ q
        · intro heq
          rw [happ] at heq
          exact hq (List.append_cancel_left (heq.symm.trans (List.append_nil _).symm))
    rw [List.map_cons, walkFrom_place hstride, happ]
    exact ih (happ ▸ h)

theorem follow_eq_walkFrom (t : LinkedTree β) (links : Nat) :
    ∃ onLink, t.follow links = t.walkFrom onLink := by
  cases links with
  | zero => exact ⟨_, rfl⟩
  | succ links => exact ⟨_, rfl⟩

theorem follow_names {i : Inode β} {links : Nat} (h : t.entry (p ++ q) = some i)
    (hlink : ∀ target, i ≠ .link target) :
    t.follow links p (q.map Subtype.val) = some (p ++ q) := by
  obtain ⟨onLink, hfollow⟩ := follow_eq_walkFrom t links
  rw [hfollow]
  exact walkFrom_names h hlink

theorem follow_blank {links : Nat} (h : t.entry p = some .directory) :
    t.follow links p ([] :: segs) = t.follow links p segs := by
  obtain ⟨onLink, hfollow⟩ := follow_eq_walkFrom t links
  rw [hfollow]
  exact walkFrom_place (stride_blank h)

/-- A place above which there are directories only is reached by its own names. -/
theorem realpath_text {cwd : FilePath} {i : Inode β} (h : t.entry p = some i)
    (hlink : ∀ target, i ≠ .link target) : t.realpath cwd ('/' :: text p) = some p := by
  unfold realpath
  rw [if_neg (List.cons_ne_nil _ _)]
  show t.follow maxLinks [] (segments ([] ++ '/' :: text p)) = _
  rw [segments_slash]
  show t.follow maxLinks [] ([] :: segments (text p)) = _
  rw [follow_blank entry_nil]
  by_cases hp : p = []
  · subst hp
    exact follow_blank entry_nil
  · rw [segments_text hp]
    exact follow_names (p := []) h hlink

theorem fileAt_text {cwd : FilePath} (h : t.entry p = some (.file b)) :
    t.fileAt cwd ('/' :: text p) = some b := by
  unfold fileAt
  rw [realpath_text h nofun, Option.bind_some, h]

/-- A walk in two parts: the first part ends somewhere, or at a link. -/
theorem walkFrom_append {a c : List Str} (h : t.walkFrom onLink p (a ++ c) = some r) :
    (∃ q, t.walkFrom onLink p a = some q ∧ t.walkFrom onLink q c = some r) ∨
      ∃ q target a', t.walkFrom onLink p a = onLink q target a' ∧
        onLink q target (a' ++ c) = some r := by
  induction a generalizing p with
  | nil => exact Or.inl ⟨p, rfl, h⟩
  | cons s a ih =>
    rw [List.cons_append] at h
    cases hstride : t.stride p s with
    | lost =>
      rw [walkFrom_lost hstride] at h
      cases h
    | place q =>
      rw [walkFrom_place hstride] at h ⊢
      exact ih h
    | link target =>
      rw [walkFrom_link hstride] at h ⊢
      exact Or.inr ⟨p, target, a, rfl, h⟩

theorem follow_append {links : Nat} {a c : List Str} (h : t.follow links p (a ++ c) = some r) :
    ∃ m q, t.follow links p a = some q ∧ t.follow m q c = some r := by
  induction links generalizing p a with
  | zero =>
    rcases walkFrom_append h with ⟨q, hfirst, hthen⟩ | ⟨q, target, a', -, hthen⟩
    · exact ⟨0, q, hfirst, hthen⟩
    · cases hthen
  | succ links ih =>
    rcases walkFrom_append h with ⟨q, hfirst, hthen⟩ | ⟨q, target, a', hfirst, hthen⟩
    · exact ⟨links + 1, q, hfirst, hthen⟩
    · split at hthen
      · cases hthen
      next hne =>
      rw [if_neg hne] at hfirst
      rw [← List.append_assoc] at hthen
      obtain ⟨m, q', hsplit, hrest⟩ := ih hthen
      exact ⟨m, q', hfirst.trans hsplit, hrest⟩

/-- Below a file there is none. -/
theorem fileAt_below {cwd : FilePath} {rest : Str} (h : t.fileAt cwd s = some b) :
    t.fileAt cwd (s ++ '/' :: rest) = none := by
  obtain ⟨p, hpath, hfile⟩ := fileAt_eq_some.mp h
  rw [Option.eq_none_iff_forall_ne_some]
  intro c hc
  obtain ⟨r, hbelow, -⟩ := fileAt_eq_some.mp hc
  have hne : s ≠ [] := by
    rintro rfl
    cases hpath
  obtain ⟨d, s', rfl⟩ := List.exists_cons_of_ne_nil hne
  unfold realpath at hpath hbelow
  rw [if_neg hne] at hpath
  rw [if_neg (List.append_ne_nil_of_left_ne_nil hne _), segments_slash] at hbelow
  obtain ⟨m, q, hfirst, hthen⟩ := follow_append hbelow
  obtain rfl : p = q := Option.some.inj (hpath.symm.trans hfirst)
  obtain ⟨x, l, hsegs⟩ := List.exists_cons_of_ne_nil (List.splitOn_ne_nil '/' rest)
  obtain ⟨onLink, hfollow⟩ := follow_eq_walkFrom t m
  have hlost : t.stride p x = .lost := by
    by_contra hnot
    rw [directory_of_stride hnot] at hfile
    cases hfile
  rw [hfollow, show segments rest = x :: l from hsegs, walkFrom_lost hlost] at hthen
  cases hthen

/-! ## Walking down -/

/-- What a walk down calls the place `q` below its starting point `s`. -/
def nameBelow (s : Str) (q : FilePath) : Str :=
  if q = [] then s
  else if s.getLast? = some '/' then s ++ text q
  else s ++ '/' :: text q

/-- Where a walk down starts. A link is not followed, unless a slash comes after it. -/
def start (t : LinkedTree β) (cwd : FilePath) (s : Str) : Option FilePath :=
  match (segments s).getLast?.bind nameOf with
  | some n =>
    match t.follow maxLinks (base cwd s) (segments s).dropLast with
    | some p => (t.entry (p ++ [n])).map fun _ => p ++ [n]
    | none => none
  | none => t.realpath cwd s

def filesBelow (t : LinkedTree β) (s : Str) (p : FilePath) : List (Str × β) :=
  t.entries.filterMap fun e =>
    match e.2 with
    | .file b => if p <+: e.1 then some (nameBelow s (e.1.drop p.length), b) else none
    | _ => none

/-- The files that a walk down from `s` finds; `none` when there is nothing at `s`. -/
def found (t : LinkedTree β) (cwd : FilePath) (s : Str) : Option (List (Str × β)) :=
  (t.start cwd s).map (t.filesBelow s)

theorem start_text {cwd : FilePath} {i : Inode β} (h : t.entry p = some i)
    (hlink : ∀ target, i ≠ .link target) : t.start cwd ('/' :: text p) = some p := by
  have hsegs : segments ('/' :: text p) = [] :: segments (text p) := segments_slash [] (text p)
  rcases p.eq_nil_or_concat' with rfl | ⟨q, n, rfl⟩
  · exact realpath_text h hlink
  · have hmap : segments ('/' :: text (q ++ [n])) = ([] :: q.map Subtype.val) ++ [n.val] := by
      rw [hsegs, segments_text (List.append_ne_nil_of_right_ne_nil q (List.cons_ne_nil n [])),
        List.map_append]
      rfl
    have hdir : t.entry ([] ++ q) = some .directory := by
      refine entry_above h (List.prefix_append q [n]) fun heq => ?_
      exact List.cons_ne_nil n [] (List.append_cancel_left (heq.symm.trans (List.append_nil q).symm))
    unfold start
    rw [hmap, List.getLast?_concat, Option.bind_some, nameOf_val, List.dropLast_concat]
    show (match t.follow maxLinks [] ([] :: q.map Subtype.val) with | some p => _ | none => none) = _
    rw [follow_blank entry_nil, follow_names hdir nofun]
    show (t.entry (q ++ [n])).map (fun _ => q ++ [n]) = _
    rw [h, Option.map_some]

theorem mem_filesBelow (h : t.entry p = some (.file b)) (hq : q <+: p) :
    (nameBelow s (p.drop q.length), b) ∈ t.filesBelow s q := by
  have hp : p ≠ [] := by
    rintro rfl
    rw [entry_nil] at h
    cases h
  refine List.mem_filterMap.mpr ⟨(p, .file b), (entry_eq_some_iff hp).mp h, ?_⟩
  exact if_pos hq

theorem getLast?_text_ne (p : FilePath) : (text p).getLast? ≠ some '/' := by
  rcases p.eq_nil_or_concat' with rfl | ⟨q, n, rfl⟩
  · exact nofun
  · have hlast : ∀ l : Str, (l ++ n.val).getLast? ≠ some '/' := by
      intro l heq
      rw [List.getLast?_append_of_ne_nil l n.property.1] at heq
      exact n.property.2.1 (List.mem_of_getLast? heq)
    by_cases hq : q = []
    · subst hq
      exact text_singleton n ▸ hlast []
    · rw [text_append hq (List.cons_ne_nil n []), text_singleton, List.append_cons]
      exact hlast _

/-- A walk down from a place that is written as its names gives the names below it. -/
theorem nameBelow_text (q r : FilePath) : nameBelow ('/' :: text q) r = '/' :: text (q ++ r) := by
  unfold nameBelow
  split
  · next hr => rw [hr, List.append_nil]
  next hr =>
  by_cases hq : q = []
  · subst hq
    exact if_pos rfl
  · have htext : text q ≠ [] := by
      intro hnil
      refine hq (text_injective (hnil.trans ?_))
      rfl
    rw [if_neg, text_append hq hr, List.cons_append]
    obtain ⟨c, l, hcl⟩ := List.exists_cons_of_ne_nil htext
    rw [hcl, List.getLast?_cons_cons, ← hcl]
    exact getLast?_text_ne q

end LinkedTree

end HomelabMcp
