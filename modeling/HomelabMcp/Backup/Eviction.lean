import HomelabMcp.Lib.KeyedList
import HomelabMcp.Backup.Names

/-!
# Which backups to delete (eviction.ts)

`planEviction` is a pure function of the files in the store: it sorts them by
date, cuts each target's files to the newest `perFileCap`, and then drops files
from the front until the rest fits into the global byte cap.
-/

namespace HomelabMcp.Backup

open SortKey Text SlashPath Iso

/-- eviction.ts:1. -/
structure BackupEntry where
  path : BackupPath
  fileKey : Str
  timestamp : Str
  sizeBytes : Nat
  deriving DecidableEq

structure EvictionPlan where
  toDelete : List BackupEntry
  toKeep : List BackupEntry

/-- `new Date(a.timestamp).getTime() - new Date(b.timestamp).getTime()` is not
positive: it is NaN, which sorting takes for zero, when a date is invalid. -/
def notAfter (a b : BackupEntry) : Prop :=
  match dateTime a.timestamp, dateTime b.timestamp with
  | some s, some t => lexLe s t = true
  | _, _ => True

instance : DecidableRel notAfter := fun a b => by
  unfold notAfter
  split <;> infer_instance

/-- `[...entries].sort(…)`, which is stable. -/
def sortByDate (entries : List BackupEntry) : List BackupEntry :=
  entries.insertionSort notAfter

/-- `list.push(e)` on the list of the file that `e` belongs to. -/
def addToFile (e : BackupEntry) :
    List (Str × List BackupEntry) → List (Str × List BackupEntry)
  | [] => [(e.fileKey, [e])]
  | (k, list) :: byFile =>
    if k = e.fileKey then (k, list ++ [e]) :: byFile else (k, list) :: addToFile e byFile

/-- The entries of each file, files and entries in order of appearance. -/
def groupByFile (sorted : List BackupEntry) : List (Str × List BackupEntry) :=
  sorted.foldl (fun byFile e => addToFile e byFile) []

def totalBytes (entries : List BackupEntry) : Nat :=
  entries.foldr (fun e sum => e.sizeBytes + sum) 0

/-- The entries the global cap evicts from the front, and the ones it leaves. -/
def evictFront (globalSizeCapBytes : Nat) :
    List BackupEntry → List BackupEntry × List BackupEntry
  | [] => ([], [])
  | e :: toKeep =>
    if totalBytes (e :: toKeep) > globalSizeCapBytes then
      (e :: (evictFront globalSizeCapBytes toKeep).1, (evictFront globalSizeCapBytes toKeep).2)
    else ([], e :: toKeep)

/-- What the per-file cap evicts: the oldest versions over it. -/
def overFileCap (perFileCap : Nat) (sorted : List BackupEntry) : List BackupEntry :=
  (groupByFile sorted).flatMap fun g => g.2.take (g.2.length - perFileCap)

/-- eviction.ts:19. -/
def planEviction (entries : List BackupEntry) (perFileCap : Nat)
    (globalSizeCapBytes : Nat) : EvictionPlan :=
  let sorted := sortByDate entries
  let toDelete := overFileCap perFileCap sorted
  let deleteSet := toDelete.map BackupEntry.path
  let toKeep := sorted.filter fun e => e.path ∉ deleteSet
  ⟨toDelete ++ (evictFront globalSizeCapBytes toKeep).1, (evictFront globalSizeCapBytes toKeep).2⟩

/-- eviction.ts:58. -/
def isOverCap (kept : List BackupEntry) (globalSizeCapBytes : Nat) : Bool :=
  totalBytes kept > globalSizeCapBytes

/-! ## What the plan does -/

/-- Entries whose dates cannot be read stay in the order they are given in. -/
theorem sortByDate_eq {entries : List BackupEntry}
    (h : ∀ e ∈ entries, dateTime e.timestamp = none) : sortByDate entries = entries := by
  refine List.Pairwise.insertionSort_eq (List.pairwise_of_forall_mem_list fun a ha b _ => ?_)
  rw [notAfter, h a ha]
  trivial

/-- The entries listed for a file so far. -/
def entriesOf (k : Str) (byFile : List (Str × List BackupEntry)) : List BackupEntry :=
  ((KeyedList.lookup Prod.fst k byFile).map Prod.snd).getD []

theorem lookup_addToFile (e : BackupEntry) (k : Str) (byFile : List (Str × List BackupEntry)) :
    KeyedList.lookup Prod.fst k (addToFile e byFile) =
      if k = e.fileKey then some (k, entriesOf k byFile ++ [e])
      else KeyedList.lookup Prod.fst k byFile := by
  induction byFile with
  | nil =>
    simp only [addToFile, KeyedList.lookup_cons, KeyedList.lookup_nil, entriesOf, Option.map_none,
      Option.getD_none, List.nil_append, eq_comm (a := e.fileKey)]
    by_cases h : k = e.fileKey
    · simp [h]
    · simp [h]
  | cons g byFile ih =>
    obtain ⟨k', list⟩ := g
    by_cases hk' : k' = e.fileKey
    · subst hk'
      simp only [addToFile, if_true, KeyedList.lookup_cons, entriesOf]
      by_cases h : e.fileKey = k
      · simp [h]
      · simp [h, Ne.symm h]
    · simp only [addToFile, if_neg hk', KeyedList.lookup_cons, ih, entriesOf]
      by_cases h : k' = k
      · subst h
        simp [hk']
      · simp [h]

theorem nodup_keys_addToFile (e : BackupEntry) {byFile : List (Str × List BackupEntry)}
    (hnd : (byFile.map Prod.fst).Nodup) :
    ((addToFile e byFile).map Prod.fst).Nodup ∧
      ∀ k ∈ (addToFile e byFile).map Prod.fst, k ∈ byFile.map Prod.fst ∨ k = e.fileKey := by
  induction byFile with
  | nil => simp [addToFile]
  | cons g byFile ih =>
    obtain ⟨k', list⟩ := g
    rw [List.map_cons, List.nodup_cons] at hnd
    rw [addToFile]
    by_cases hk' : k' = e.fileKey
    · rw [if_pos hk', List.map_cons, List.nodup_cons]
      exact ⟨hnd, fun k hk => Or.inl hk⟩
    · rw [if_neg hk', List.map_cons, List.nodup_cons]
      obtain ⟨ihnd, ihmem⟩ := ih hnd.2
      refine ⟨⟨fun hmem => ?_, ihnd⟩, fun k hk => ?_⟩
      · rcases ihmem k' hmem with h | h
        · exact hnd.1 h
        · exact hk' h
      · rw [List.mem_cons] at hk
        rcases hk with rfl | hk
        · exact Or.inl List.mem_cons_self
        · rcases ihmem k hk with h | h
          · exact Or.inl (List.mem_cons_of_mem _ h)
          · exact Or.inr h

theorem groupByFile_append (sorted : List BackupEntry) (e : BackupEntry) :
    groupByFile (sorted ++ [e]) = addToFile e (groupByFile sorted) := by
  simp [groupByFile]

theorem nodup_keys_groupByFile (sorted : List BackupEntry) :
    ((groupByFile sorted).map Prod.fst).Nodup := by
  induction sorted using List.reverseRecOn with
  | nil => exact List.nodup_nil
  | append_singleton sorted e ih =>
    rw [groupByFile_append]
    exact (nodup_keys_addToFile e ih).1

/-- The list of a file is its entries in order. -/
theorem lookup_groupByFile (sorted : List BackupEntry) (k : Str) :
    KeyedList.lookup Prod.fst k (groupByFile sorted) =
      if sorted.filter (fun e => e.fileKey = k) = [] then none
      else some (k, sorted.filter fun e => e.fileKey = k) := by
  induction sorted using List.reverseRecOn with
  | nil => rfl
  | append_singleton sorted e ih =>
    rw [groupByFile_append, lookup_addToFile, List.filter_append]
    by_cases h : k = e.fileKey
    · subst h
      have hof : entriesOf e.fileKey (groupByFile sorted) =
          sorted.filter fun f => f.fileKey = e.fileKey := by
        rw [entriesOf, ih]
        by_cases hnil : (sorted.filter fun f => f.fileKey = e.fileKey) = []
        · rw [if_pos hnil, hnil]
          rfl
        · rw [if_neg hnil]
          rfl
      simp [hof]
    · rw [if_neg h, ih]
      simp [Ne.symm h]

/-- The files of an entry's target, in order. -/
def sameFile (sorted : List BackupEntry) (e : BackupEntry) : List BackupEntry :=
  sorted.filter fun f => f.fileKey = e.fileKey

theorem mem_overFileCap {perFileCap : Nat} {sorted : List BackupEntry} {e : BackupEntry} :
    e ∈ overFileCap perFileCap sorted ↔
      e ∈ (sameFile sorted e).take ((sameFile sorted e).length - perFileCap) := by
  unfold overFileCap
  rw [List.mem_flatMap]
  constructor
  · rintro ⟨⟨k, list⟩, hg, he⟩
    have hlookup := KeyedList.lookup_self (nodup_keys_groupByFile sorted) hg
    rw [lookup_groupByFile] at hlookup
    by_cases hnil : sorted.filter (fun f => f.fileKey = k) = []
    · rw [if_pos hnil] at hlookup
      cases hlookup
    · rw [if_neg hnil] at hlookup
      injection hlookup with hlookup
      injection hlookup with _ hlist
      have hmem : e ∈ sorted.filter fun f => f.fileKey = k := hlist ▸ List.mem_of_mem_take he
      have hkey : e.fileKey = k := by simpa using (List.mem_filter.mp hmem).2
      have hsame : sameFile sorted e = list := by
        rw [sameFile, hkey]
        exact hlist
      rw [hsame]
      exact he
  · intro he
    refine ⟨(e.fileKey, sameFile sorted e), ?_, he⟩
    have hne : sorted.filter (fun f => f.fileKey = e.fileKey) ≠ [] :=
      List.ne_nil_of_mem (List.mem_of_mem_take he)
    have hlookup := lookup_groupByFile sorted e.fileKey
    rw [if_neg hne] at hlookup
    exact KeyedList.mem_of_lookup hlookup

theorem totalBytes_append (a b : List BackupEntry) :
    totalBytes (a ++ b) = totalBytes a + totalBytes b := by
  induction a with
  | nil => simp [totalBytes]
  | cons e a ih =>
    simp only [totalBytes, List.cons_append, List.foldr_cons] at ih ⊢
    omega

theorem evictFront_append (cap : Nat) (l : List BackupEntry) :
    (evictFront cap l).1 ++ (evictFront cap l).2 = l := by
  induction l with
  | nil => rfl
  | cons e l ih =>
    rw [evictFront]
    by_cases h : totalBytes (e :: l) > cap
    · rw [if_pos h, List.cons_append, ih]
    · rw [if_neg h, List.nil_append]

theorem totalBytes_sublist {a b : List BackupEntry} (h : a.Sublist b) :
    totalBytes a ≤ totalBytes b := by
  induction h with
  | slnil => exact le_refl _
  | cons e _ ih => exact le_trans ih (Nat.le_add_left _ _)
  | cons_cons e _ ih => exact Nat.add_le_add_left ih _

theorem totalBytes_perm {a b : List BackupEntry} (h : a.Perm b) : totalBytes a = totalBytes b := by
  induction h with
  | nil => rfl
  | cons e _ ih => exact congrArg (e.sizeBytes + ·) ih
  | swap e f l => exact Nat.add_left_comm _ _ _
  | trans _ _ ih₁ ih₂ => exact ih₁.trans ih₂

/-- What is left fits. -/
theorem evictFront_fits (cap : Nat) (l : List BackupEntry) :
    totalBytes (evictFront cap l).2 ≤ cap := by
  induction l with
  | nil => exact Nat.zero_le cap
  | cons e l ih =>
    rw [evictFront]
    by_cases h : totalBytes (e :: l) > cap
    · rw [if_pos h]
      exact ih
    · rw [if_neg h]
      exact Nat.le_of_not_lt h

/-- An entry is evicted when it and the entries after it do not fit. -/
theorem mem_evictFront {cap : Nat} {l : List BackupEntry} {e : BackupEntry} :
    e ∈ (evictFront cap l).1 ↔ ∃ a b, l = a ++ e :: b ∧ cap < totalBytes (e :: b) := by
  induction l with
  | nil => simp [evictFront]
  | cons f l ih =>
    rw [evictFront]
    by_cases h : totalBytes (f :: l) > cap
    · rw [if_pos h, List.mem_cons, ih]
      constructor
      · rintro (rfl | ⟨a, b, rfl, hb⟩)
        · exact ⟨[], l, rfl, h⟩
        · exact ⟨f :: a, b, rfl, hb⟩
      · rintro ⟨a, b, heq, hb⟩
        cases a with
        | nil =>
          injection heq with hef _
          exact Or.inl hef.symm
        | cons g a =>
          injection heq with _ hl
          exact Or.inr ⟨a, b, hl, hb⟩
    · rw [if_neg h]
      constructor
      · intro hmem
        cases hmem
      · rintro ⟨a, b, heq, hb⟩
        -- a later part is not longer
        have hsum := totalBytes_append a (e :: b)
        rw [← heq] at hsum
        omega

theorem overFileCap_subset (perFileCap : Nat) (sorted : List BackupEntry) :
    overFileCap perFileCap sorted ⊆ sorted := fun _ he =>
  List.mem_of_mem_filter (List.mem_of_mem_take (mem_overFileCap.mp he))

/-- Only given entries are deleted. -/
theorem toDelete_subset (entries : List BackupEntry) (perFileCap globalSizeCapBytes : Nat) :
    (planEviction entries perFileCap globalSizeCapBytes).toDelete ⊆ entries := by
  intro e he
  rw [planEviction, List.mem_append] at he
  rcases he with he | he
  · exact (List.mem_insertionSort _).mp (overFileCap_subset _ _ he)
  · obtain ⟨a, b, heq, -⟩ := mem_evictFront.mp he
    have hmem : e ∈ a ++ e :: b := List.mem_append_right _ List.mem_cons_self
    rw [← heq] at hmem
    exact (List.mem_insertionSort _).mp (List.mem_of_mem_filter hmem)

end HomelabMcp.Backup
