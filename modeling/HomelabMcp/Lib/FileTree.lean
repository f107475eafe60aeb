import Mathlib.Data.List.Infix
import HomelabMcp.Lib.KeyedList

/-!
# Trees of files and directories

A directory tree, as the files in it with their content and the directories in it. A
path is the list of the names below the root; what is above a file or a directory is a
directory.

- `FileTree.write`: the directories above a file are made when they are missing. It fails
  where a file stands above, or a directory in the place.
- `FileTree.writeAll_eq_ok_iff`: several files can be written one after the other when
  each could be written alone, and none is above another.
- `FileTree.remove`: a file is removed, the directories above it stay.
-/

namespace HomelabMcp

open KeyedList

structure FileTree (ν β : Type) where
  files : List (List ν × β)
  dirs : List (List ν)
  nodup : (files.map Prod.fst).Nodup
  root : [] ∈ dirs
  above_file : ∀ f ∈ files, ∀ q, q <+: f.1 → q ≠ f.1 → q ∈ dirs
  above_dir : ∀ p ∈ dirs, ∀ q, q <+: p → q ∈ dirs
  file_not_dir : ∀ f ∈ files, f.1 ∉ dirs

/-- Why a file cannot be written. -/
inductive WriteError (ν : Type)
  /-- A file stands above the place. -/
  | blocked (above : List ν)
  /-- A directory is in the place. -/
  | isDirectory
  deriving DecidableEq

namespace FileTree

variable {ν β : Type} [DecidableEq ν] {t t' : FileTree ν β} {p q : List ν} {b c : β}

def empty : FileTree ν β where
  files := []
  dirs := [[]]
  nodup := List.nodup_nil
  root := List.mem_singleton_self _
  above_file := nofun
  above_dir p hp q hq := by
    rw [List.mem_singleton] at hp ⊢
    subst hp
    exact List.prefix_nil.mp hq
  file_not_dir := nofun

/-- The content of the file in a place. -/
def read (t : FileTree ν β) (p : List ν) : Option β :=
  (lookup Prod.fst p t.files).map Prod.snd

omit [DecidableEq ν] in
theorem mem_files_fst (h : (p, b) ∈ t.files) : p ∈ t.files.map Prod.fst :=
  List.mem_map_of_mem h

theorem read_eq_some_iff : t.read p = some b ↔ (p, b) ∈ t.files := by
  unfold read
  rw [Option.map_eq_some_iff]
  constructor
  · rintro ⟨f, hf, rfl⟩
    obtain ⟨hmem, rfl⟩ := (lookup_eq_some_iff t.nodup).mp hf
    exact hmem
  · intro hmem
    exact ⟨(p, b), (lookup_eq_some_iff t.nodup).mpr ⟨hmem, rfl⟩, rfl⟩

theorem read_eq_none_iff : t.read p = none ↔ p ∉ t.files.map Prod.fst := by
  unfold read
  rw [Option.map_eq_none_iff, lookup_eq_none_iff]
  constructor
  · intro h hmem
    obtain ⟨f, hf, rfl⟩ := List.mem_map.mp hmem
    exact h f hf rfl
  · intro h f hf heq
    exact h (heq ▸ List.mem_map_of_mem hf)

@[simp] theorem read_empty : (empty : FileTree ν β).read p = none := rfl

/-- Above a file there are directories only. -/
theorem mem_dirs_of_read (h : t.read p = some b) (hq : q <+: p) (hne : q ≠ p) : q ∈ t.dirs :=
  t.above_file (p, b) (read_eq_some_iff.mp h) q hq hne

theorem read_of_mem_dirs (h : p ∈ t.dirs) : t.read p = none := by
  rw [read_eq_none_iff]
  intro hmem
  obtain ⟨f, hf, rfl⟩ := List.mem_map.mp hmem
  exact t.file_not_dir f hf h

theorem notMem_dirs_of_read (h : t.read p = some b) : p ∉ t.dirs := by
  intro hdir
  rw [read_of_mem_dirs hdir] at h
  cases h

/-- No file is above another. -/
theorem read_above (h : t.read p = some b) (hq : q <+: p) (hne : q ≠ p) : t.read q = none :=
  read_of_mem_dirs (mem_dirs_of_read h hq hne)

/-! ## Writing -/

/-- The places above `p`, from the root on. -/
def above (p : List ν) : List (List ν) :=
  p.inits.filter fun q => decide (q ≠ p)

theorem mem_above : q ∈ above p ↔ q <+: p ∧ q ≠ p := by
  unfold above
  rw [List.mem_filter, List.mem_inits, decide_eq_true_iff]

theorem above_trans {r : List ν} (hr : r <+: q) (hq : q ∈ above p) : r ∈ above p := by
  rw [mem_above] at hq ⊢
  refine ⟨hr.trans hq.1, ?_⟩
  rintro rfl
  exact hq.2 (hq.1.eq_of_length (Nat.le_antisymm hq.1.length_le hr.length_le))

/-- The file that stands highest above a place. -/
def blocker (t : FileTree ν β) (p : List ν) : Option (List ν) :=
  (above p).find? fun q => (t.read q).isSome

theorem blocker_eq_none_iff :
    t.blocker p = none ↔ ∀ q, q <+: p → q ≠ p → t.read q = none := by
  unfold blocker
  rw [List.find?_eq_none]
  constructor
  · intro h q hq hne
    exact Option.not_isSome_iff_eq_none.mp (h q (mem_above.mpr ⟨hq, hne⟩))
  · intro h q hq
    obtain ⟨hpre, hne⟩ := mem_above.mp hq
    exact Option.not_isSome_iff_eq_none.mpr (h q hpre hne)

/-- The tree in which a place that is free holds a file. -/
def put (t : FileTree ν β) (p : List ν) (b : β) (hdir : p ∉ t.dirs)
    (hfree : ∀ q, q <+: p → q ≠ p → t.read q = none) : FileTree ν β where
  files := upsert Prod.fst (p, b) t.files
  dirs := t.dirs ++ above p
  nodup := nodup_upsert t.nodup
  root := List.mem_append_left _ t.root
  above_file f hf q hq hne := by
    rcases mem_upsert hf with rfl | hmem
    · exact List.mem_append_right _ (mem_above.mpr ⟨hq, hne⟩)
    · exact List.mem_append_left _ (t.above_file f hmem q hq hne)
  above_dir r hr q hq := by
    rcases List.mem_append.mp hr with hr | hr
    · exact List.mem_append_left _ (t.above_dir r hr q hq)
    · exact List.mem_append_right _ (above_trans hq hr)
  file_not_dir f hf := by
    rw [List.mem_append, not_or]
    rcases mem_upsert hf with rfl | hmem
    · exact ⟨hdir, fun h => (mem_above.mp h).2 rfl⟩
    · refine ⟨t.file_not_dir f hmem, fun h => ?_⟩
      obtain ⟨hpre, hne⟩ := mem_above.mp h
      have hread : t.read f.1 = some f.2 := read_eq_some_iff.mpr hmem
      rw [hfree f.1 hpre hne] at hread
      cases hread

/-- Make the directories above a place, and write a file there. -/
def write (t : FileTree ν β) (p : List ν) (b : β) : Except (WriteError ν) (FileTree ν β) :=
  match hblocked : t.blocker p with
  | some q => .error (.blocked q)
  | none =>
    if hdir : p ∈ t.dirs then .error .isDirectory
    else .ok (t.put p b hdir (blocker_eq_none_iff.mp hblocked))

/-- A file can be written in this place. -/
def Free (t : FileTree ν β) (p : List ν) : Prop :=
  p ∉ t.dirs ∧ ∀ q, q <+: p → q ≠ p → t.read q = none

theorem write_eq_ok (h : t.Free p) : t.write p b = .ok (t.put p b h.1 h.2) := by
  unfold write
  split
  · next q hblocked =>
    rw [blocker_eq_none_iff.mpr h.2] at hblocked
    cases hblocked
  · exact dif_neg h.1

/-- What was written was free. -/
theorem free_of_write (h : t.write p b = .ok t') :
    ∃ hfree : t.Free p, t' = t.put p b hfree.1 hfree.2 := by
  unfold write at h
  split at h
  · cases h
  · next hblocked =>
    split at h
    · cases h
    · next hdir =>
      cases h
      exact ⟨⟨hdir, blocker_eq_none_iff.mp hblocked⟩, rfl⟩

theorem read_put {hdir hfree} :
    (t.put p b hdir hfree).read q = if q = p then some b else t.read q := by
  unfold read put
  dsimp only
  rw [lookup_upsert]
  by_cases h : q = p
  · rw [if_pos h, if_pos h.symm]
    rfl
  · rw [if_neg h, if_neg (Ne.symm h)]

theorem read_write (h : t.write p b = .ok t') :
    t'.read q = if q = p then some b else t.read q := by
  obtain ⟨hfree, rfl⟩ := free_of_write h
  exact read_put

theorem mem_dirs_write (h : t.write p b = .ok t') :
    q ∈ t'.dirs ↔ q ∈ t.dirs ∨ (q <+: p ∧ q ≠ p) := by
  obtain ⟨hfree, rfl⟩ := free_of_write h
  exact List.mem_append.trans (or_congr_right mem_above)

/-- A place in which there is a file can be written again. -/
theorem free_of_read (h : t.read p = some b) : t.Free p :=
  ⟨notMem_dirs_of_read h, fun _ hq hne => read_above h hq hne⟩

/-- Which places a write leaves free. -/
theorem free_write_iff (h : t.write p b = .ok t') :
    t'.Free q ↔ t.Free q ∧ ¬(q <+: p ∧ q ≠ p) ∧ ¬(p <+: q ∧ p ≠ q) := by
  unfold Free
  rw [mem_dirs_write h, not_or]
  constructor
  · rintro ⟨⟨hdir, hbelow⟩, habove⟩
    refine ⟨⟨hdir, fun r hr hne => ?_⟩, hbelow, ?_⟩
    · have hread := habove r hr hne
      rw [read_write h] at hread
      split at hread
      · cases hread
      · exact hread
    · rintro ⟨hpq, hne⟩
      have hread := habove p hpq hne
      rw [read_write h, if_pos rfl] at hread
      cases hread
  · rintro ⟨⟨hdir, habove⟩, hbelow, hover⟩
    refine ⟨⟨hdir, hbelow⟩, fun r hr hne => ?_⟩
    rw [read_write h, if_neg ?_]
    · exact habove r hr hne
    · rintro rfl
      exact hover ⟨hr, hne⟩

/-! ## Several files -/

/-- Write files one after the other, as far as it goes. -/
def writeAll : List (List ν × β) → FileTree ν β → Except (WriteError ν) (FileTree ν β)
  | [], t => .ok t
  | f :: fs, t =>
    match t.write f.1 f.2 with
    | .ok t' => writeAll fs t'
    | .error e => .error e

theorem writeAll_cons {f : List ν × β} {fs : List (List ν × β)} :
    writeAll (f :: fs) t = .ok t' ↔
      ∃ u, t.write f.1 f.2 = .ok u ∧ writeAll fs u = .ok t' := by
  show (match t.write f.1 f.2 with | .ok u => writeAll fs u | .error e => .error e) = _ ↔ _
  cases t.write f.1 f.2 with
  | ok u => exact ⟨fun h => ⟨u, rfl, h⟩, fun ⟨_, hu, h⟩ => Except.ok.inj hu ▸ h⟩
  | error e => exact ⟨nofun, fun ⟨_, hu, _⟩ => nomatch hu⟩

/-- Of two places none is above the other. -/
def Apart (p q : List ν) : Prop :=
  ¬(q <+: p ∧ q ≠ p) ∧ ¬(p <+: q ∧ p ≠ q)

omit [DecidableEq ν] in
theorem Apart.symm (h : Apart p q) : Apart q p :=
  ⟨h.2, h.1⟩

theorem writeAll_eq_ok_iff {fs : List (List ν × β)} :
    (∃ t', writeAll fs t = .ok t') ↔
      (∀ f ∈ fs, t.Free f.1) ∧ fs.Pairwise fun f g => Apart f.1 g.1 := by
  induction fs generalizing t with
  | nil => exact iff_of_true ⟨t, rfl⟩ ⟨nofun, .nil⟩
  | cons f fs ih =>
    rw [List.pairwise_cons]
    constructor
    · rintro ⟨t', h⟩
      obtain ⟨u, hu, h⟩ := writeAll_cons.mp h
      obtain ⟨hfree, hpairs⟩ := ih.mp ⟨t', h⟩
      have hstill : ∀ g ∈ fs, t.Free g.1 ∧ Apart f.1 g.1 := fun g hg =>
        (free_write_iff hu).mp (hfree g hg)
      refine ⟨?_, fun g hg => (hstill g hg).2, hpairs⟩
      intro g hg
      rcases List.mem_cons.mp hg with rfl | hg
      · exact (free_of_write hu).1
      · exact (hstill g hg).1
    · rintro ⟨hfree, hhead, hpairs⟩
      have hu := write_eq_ok (b := f.2) (hfree f List.mem_cons_self)
      obtain ⟨t', h⟩ := ih.mpr ⟨fun g hg => (free_write_iff hu).mpr
        ⟨hfree g (List.mem_cons_of_mem f hg), hhead g hg⟩, hpairs⟩
      exact ⟨t', writeAll_cons.mpr ⟨_, hu, h⟩⟩

/-- What is not among the files written stays as it was. -/
theorem read_writeAll_of_notMem {fs : List (List ν × β)} (h : writeAll fs t = .ok t')
    (hp : p ∉ fs.map Prod.fst) : t'.read p = t.read p := by
  induction fs generalizing t with
  | nil => exact congrArg (read · p) (Except.ok.inj h).symm
  | cons f fs ih =>
    obtain ⟨u, hu, h⟩ := writeAll_cons.mp h
    rw [List.map_cons, List.mem_cons, not_or] at hp
    rw [ih h hp.2, read_write hu, if_neg hp.1]

/-- What is written is there, when no place is given two contents. -/
theorem read_writeAll_of_mem {fs : List (List ν × β)} (h : writeAll fs t = .ok t')
    (hone : ∀ f ∈ fs, f.1 = p → f.2 = b) (hp : p ∈ fs.map Prod.fst) : t'.read p = some b := by
  induction fs generalizing t with
  | nil => cases hp
  | cons f fs ih =>
    obtain ⟨u, hu, h⟩ := writeAll_cons.mp h
    by_cases hrest : p ∈ fs.map Prod.fst
    · exact ih h (fun g hg => hone g (List.mem_cons_of_mem f hg)) hrest
    · obtain rfl : p = f.1 := (List.mem_cons.mp hp).resolve_right hrest
      rw [read_writeAll_of_notMem h hrest, read_write hu, if_pos rfl]
      exact congrArg some (hone f List.mem_cons_self rfl)

/-- What is there stays, with the same content or another one. -/
theorem isSome_read_writeAll {fs : List (List ν × β)} (h : writeAll fs t = .ok t')
    (hp : (t.read p).isSome) : (t'.read p).isSome := by
  induction fs generalizing t with
  | nil => exact Except.ok.inj h ▸ hp
  | cons f fs ih =>
    obtain ⟨u, hu, h⟩ := writeAll_cons.mp h
    refine ih h ?_
    rw [read_write hu]
    split
    · rfl
    · exact hp

/-- What could not be written before, cannot be written after. -/
theorem free_of_free_writeAll {fs : List (List ν × β)} (h : writeAll fs t = .ok t')
    (hfree : t'.Free p) : t.Free p := by
  induction fs generalizing t with
  | nil => exact Except.ok.inj h ▸ hfree
  | cons f fs ih =>
    obtain ⟨u, hu, h⟩ := writeAll_cons.mp h
    exact ((free_write_iff hu).mp (ih h)).1

/-! ## Removing -/

/-- Remove the file in a place, if there is one. -/
def remove (t : FileTree ν β) (p : List ν) : FileTree ν β where
  files := t.files.filter fun f => decide (f.1 ≠ p)
  dirs := t.dirs
  nodup := t.nodup.sublist (List.filter_sublist.map Prod.fst)
  root := t.root
  above_file f hf := t.above_file f (List.mem_of_mem_filter hf)
  above_dir := t.above_dir
  file_not_dir f hf := t.file_not_dir f (List.mem_of_mem_filter hf)

theorem read_remove : (t.remove p).read q = if q = p then none else t.read q := by
  have hiff : ∀ b, (t.remove p).read q = some b ↔ t.read q = some b ∧ q ≠ p := by
    intro b
    rw [read_eq_some_iff, read_eq_some_iff]
    show (q, b) ∈ t.files.filter _ ↔ _
    rw [List.mem_filter, decide_eq_true_iff]
  refine Option.ext fun b => ?_
  rw [hiff]
  by_cases h : q = p
  · simp [h]
  · simp [h]

/-- Remove files one after the other. -/
def removeAll (ps : List (List ν)) (t : FileTree ν β) : FileTree ν β :=
  ps.foldl remove t

theorem read_removeAll {ps : List (List ν)} :
    (removeAll ps t).read q = if q ∈ ps then none else t.read q := by
  induction ps generalizing t with
  | nil => exact (if_neg List.not_mem_nil).symm
  | cons p ps ih =>
    show (removeAll ps (t.remove p)).read q = _
    rw [ih, read_remove]
    by_cases hmem : q ∈ ps
    · rw [if_pos hmem, if_pos (List.mem_cons_of_mem p hmem)]
    · by_cases heq : q = p
      · rw [if_neg hmem, if_pos heq, if_pos (heq ▸ List.mem_cons_self)]
      · rw [if_neg hmem, if_neg heq, if_neg fun h => (List.mem_cons.mp h).elim heq hmem]

/-! ## Listing -/

/-- The files below a directory that a walk finds when it passes over the names that
`hidden` holds of; a file by such a name is passed over too. -/
def listBelow (t : FileTree ν β) (hidden : ν → Bool) (p : List ν) : List (List ν) :=
  (t.files.map Prod.fst).filter fun q =>
    decide (p <+: q) && (q.drop p.length).all fun n => !hidden n

theorem mem_listBelow {hidden : ν → Bool} :
    q ∈ t.listBelow hidden p ↔
      ∃ r, q = p ++ r ∧ (∃ b, t.read q = some b) ∧ ∀ n ∈ r, hidden n = false := by
  unfold listBelow
  rw [List.mem_filter, Bool.and_eq_true, decide_eq_true_iff]
  constructor
  · rintro ⟨hmem, ⟨r, rfl⟩, hall⟩
    obtain ⟨⟨q, b⟩, hf, heq⟩ := List.mem_map.mp hmem
    refine ⟨r, rfl, ⟨b, read_eq_some_iff.mpr (heq ▸ hf)⟩, fun n hn => ?_⟩
    rw [List.drop_left] at hall
    exact Bool.not_eq_true' _ ▸ List.all_eq_true.mp hall n hn
  · rintro ⟨r, rfl, ⟨b, hb⟩, hall⟩
    refine ⟨mem_files_fst (read_eq_some_iff.mp hb), List.prefix_append p r, ?_⟩
    rw [List.drop_left, List.all_eq_true]
    intro n hn
    rw [hall n hn]
    rfl

end FileTree

end HomelabMcp
