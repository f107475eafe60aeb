import HomelabMcp.Backup.Store

/-!
# Versions and their eviction

The planner counts files and walks them in the order that the directories list
them; what a user keeps are versions, and they age by time. `KeepsNewest` is
the policy at the level of versions, and `EvictsByTime` is when the planner
follows it.

- `keepsNewest_of_evictsByTime`: one eviction.
- `run_keepsNewest`: every eviction of a run.
-/

namespace HomelabMcp.Backup

open SlashPath SortKey Text Iso

/-- The last `n` elements. -/
def newest {α : Type} (n : Nat) (l : List α) : List α :=
  l.drop (l.length - n)

/-- Earlier in time, for stamps. -/
def older (s t : Str) : Prop :=
  lexLe (textKey t) (textKey s) = false

instance : DecidableRel older := fun s t =>
  inferInstanceAs (Decidable (lexLe (textKey t) (textKey s) = false))

/-! ## The policy -/

def diskBytes (cfg : BackupConfig) (disk : Disk) : Nat :=
  totalBytes (disk.map (StoredFile.entry cfg))

/-- No version has lost only its blob or only its sidecar. -/
def Whole (disk : Disk) : Prop :=
  ∀ f ∈ disk, match f.content with
    | .blob _ => f.path.ext = .gz ∧
        ∃ m, readMeta disk (f.path.withExt .sidecar) = some m ∧ m.kind ≠ .metadataOnly
    | .sidecar m => f.path.ext = .sidecar ∧
        (m.kind = .metadataOnly ∨ (read disk (f.path.withExt .gz)).isSome)

/-- The files of the newest `cap` versions of each target. -/
def newestVersions (cap : Nat) (disk : Disk) : Disk :=
  (listing disk).filter fun f => f.path.stamp ∈ newest cap (stampsOf disk f.path.key)

/-- The files that are at least as new as `s`. -/
def since (s : Str) (disk : Disk) : Disk :=
  disk.filter fun f => ¬ older f.path.stamp s

/-- An eviction removes whole oldest versions only. -/
structure KeepsNewest (cfg : BackupConfig) (before after : Disk) : Prop where
  whole : Whole after
  capped : ∀ key, ∀ s ∈ stampsOf after key, s ∈ newest cfg.perFileVersionCap (stampsOf before key)
  count : ∀ key, (∀ s ∈ newest cfg.perFileVersionCap (stampsOf before key), s ∈ stampsOf after key) →
    (stampsOf after key).length = min (stampsOf before key).length cfg.perFileVersionCap
  forced : ∀ key, ∀ s ∈ newest cfg.perFileVersionCap (stampsOf before key), s ∉ stampsOf after key →
    cfg.globalSizeCapBytes < diskBytes cfg (since s (newestVersions cfg.perFileVersionCap before))
  oldestFirst : ∀ key, ∀ s ∈ newest cfg.perFileVersionCap (stampsOf before key),
    s ∉ stampsOf after key → ∀ key', ∀ s' ∈ stampsOf after key', ¬ older s' s
  fits : diskBytes cfg after ≤ cfg.globalSizeCapBytes

/-! ## When the planner follows it -/

/-- The newest `cap` files of each directory. -/
def withinFileCap (cap : Nat) (disk : Disk) : Disk :=
  (listing disk).filter fun f => f ∈ newest cap (filesOf disk f.path.key)

/-- `f` and the files listed after it. -/
def listedFrom (f : StoredFile) (disk : Disk) : Disk :=
  disk.dropWhile fun g => g ≠ f

/-- The record of a version without content. -/
def StoredFile.bare (f : StoredFile) : Prop :=
  match f.content with
  | .sidecar m => m.kind = .metadataOnly
  | .blob _ => False

instance : DecidablePred StoredFile.bare
  | ⟨_, .sidecar m⟩ => inferInstanceAs (Decidable (m.kind = .metadataOnly))
  | ⟨_, .blob _⟩ => inferInstanceAs (Decidable False)

/-- Counting files and walking them in the order of the listing comes to the
same as counting versions and walking them by age: no directory has more files
than the cap, or its newest files are versions of one file each; and a file
exceeds the byte cap together with the files listed after it exactly when it
does together with the files that are not older. -/
structure EvictsByTime (cfg : BackupConfig) (disk : Disk) : Prop where
  byFile : ∀ key, (filesOf disk key).length ≤ cfg.perFileVersionCap ∨
    ∀ f ∈ newest cfg.perFileVersionCap (filesOf disk key), f.bare
  bySize : ∀ f ∈ withinFileCap cfg.perFileVersionCap disk,
    (cfg.globalSizeCapBytes <
        diskBytes cfg (listedFrom f (withinFileCap cfg.perFileVersionCap disk)) ↔
      cfg.globalSizeCapBytes <
        diskBytes cfg (since f.path.stamp (withinFileCap cfg.perFileVersionCap disk)))

/-! ## The planner on a disk -/

/-- The names are distinct and come from the clock. -/
structure Stamped (disk : Disk) : Prop where
  nodup : (disk.map StoredFile.path).Nodup
  stamps : ∀ f ∈ disk, ∃ i, f.path.stamp = stamp i

theorem mem_listing {disk : Disk} {f : StoredFile} : f ∈ listing disk ↔ f ∈ disk :=
  mem_sortOn _

theorem mem_filesOf {disk : Disk} {key : Str} {f : StoredFile} :
    f ∈ filesOf disk key ↔ f ∈ disk ∧ f.path.key = key := by
  unfold filesOf
  rw [List.mem_filter, mem_listing, decide_eq_true_eq]

theorem mem_stampsOf {disk : Disk} {key s : Str} :
    s ∈ stampsOf disk key ↔ ∃ f ∈ disk, f.path.key = key ∧ f.path.stamp = s := by
  unfold stampsOf
  rw [List.mem_dedup, List.mem_map]
  simp only [mem_filesOf, and_assoc]

theorem Stamped.path_inj {disk : Disk} (hd : Stamped disk) {f g : StoredFile} (hf : f ∈ disk)
    (hg : g ∈ disk) (h : f.path = g.path) : f = g :=
  List.inj_on_of_nodup_map hd.nodup hf hg h

theorem Stamped.nodup_listing {disk : Disk} (hd : Stamped disk) : (listing disk).Nodup :=
  sortOn_nodup _ hd.nodup.of_map

theorem Stamped.sublist {d disk : Disk} (hd : Stamped disk) (h : d.Sublist disk) : Stamped d where
  nodup := hd.nodup.sublist (h.map _)
  stamps f hf := hd.stamps f (h.subset hf)

/-- Listed entries are not moved by the sort. -/
theorem Stamped.sortByDate {cfg : BackupConfig} {disk : Disk} (hd : Stamped disk) :
    sortByDate (listEntries cfg disk) = listEntries cfg disk := by
  refine sortByDate_eq fun e he => ?_
  obtain ⟨f, hf, rfl⟩ := List.mem_map.mp he
  obtain ⟨i, hi⟩ := hd.stamps f (mem_listing.mp hf)
  rw [StoredFile.entry, hi, dateTime_stamp]

theorem mem_take_iff_notMem_drop {α : Type} {l : List α} (hl : l.Nodup) {a : α} (ha : a ∈ l)
    (n : Nat) : a ∈ l.take n ↔ a ∉ l.drop n := by
  have hsplit := List.take_append_drop n l
  have hdisj := List.disjoint_take_drop hl (le_refl n)
  constructor
  · intro htake hdrop
    exact hdisj htake hdrop
  · intro hdrop
    rw [← hsplit, List.mem_append] at ha
    exact ha.resolve_right hdrop

theorem sameFile_entry {cfg : BackupConfig} {disk : Disk} (f : StoredFile) :
    sameFile (listEntries cfg disk) (f.entry cfg) =
      (filesOf disk f.path.key).map (StoredFile.entry cfg) := by
  unfold sameFile listEntries filesOf
  rw [List.filter_map]
  rfl

theorem entry_injOn {cfg : BackupConfig} {disk : Disk} (hd : Stamped disk) {f g : StoredFile}
    (hf : f ∈ disk) (hg : g ∈ disk) (h : f.entry cfg = g.entry cfg) : f = g :=
  hd.path_inj hf hg (congrArg BackupEntry.path h)

/-- The per-file cap leaves the newest files of each directory. -/
theorem mem_overFileCap_entry (cfg : BackupConfig) {disk : Disk} (hd : Stamped disk)
    {f : StoredFile} (hf : f ∈ disk) (cap : Nat) :
    f.entry cfg ∈ overFileCap cap (listEntries cfg disk) ↔ f ∉ withinFileCap cap disk := by
  have hfiles : f ∈ filesOf disk f.path.key := mem_filesOf.mpr ⟨hf, rfl⟩
  have hnd : (filesOf disk f.path.key).Nodup := hd.nodup_listing.filter _
  rw [mem_overFileCap, sameFile_entry, List.length_map, ← List.map_take, withinFileCap,
    List.mem_filter, decide_eq_true_eq, mem_listing, newest]
  have hmap : f.entry cfg ∈ ((filesOf disk f.path.key).take
      ((filesOf disk f.path.key).length - cap)).map (StoredFile.entry cfg) ↔
      f ∈ (filesOf disk f.path.key).take ((filesOf disk f.path.key).length - cap) := by
    constructor
    · intro h
      obtain ⟨g, hg, heq⟩ := List.mem_map.mp h
      have hgd := (mem_filesOf.mp (List.mem_of_mem_take hg)).1
      exact entry_injOn hd hgd hf heq ▸ hg
    · exact List.mem_map_of_mem
  rw [hmap, mem_take_iff_notMem_drop hnd hfiles]
  exact ⟨fun h hand => h hand.2, fun h hdrop => h ⟨hf, hdrop⟩⟩

/-- What the per-file cap leaves to the byte cap. -/
theorem filter_notMem_overFileCap {cfg : BackupConfig} {disk : Disk} (hd : Stamped disk)
    (cap : Nat) :
    (listEntries cfg disk).filter
        (fun e => e.path ∉ (overFileCap cap (listEntries cfg disk)).map BackupEntry.path) =
      (withinFileCap cap disk).map (StoredFile.entry cfg) := by
  have hiff : ∀ f ∈ listing disk,
      (f.path ∉ (overFileCap cap (listEntries cfg disk)).map BackupEntry.path ↔
        f ∈ newest cap (filesOf disk f.path.key)) := by
    intro f hf
    have hfd := mem_listing.mp hf
    have hover := mem_overFileCap_entry cfg hd hfd cap
    rw [withinFileCap, List.mem_filter, decide_eq_true_eq] at hover
    constructor
    · intro hnot
      by_contra hmem
      exact hnot (List.mem_map.mpr ⟨f.entry cfg, hover.mpr fun h => hmem h.2, rfl⟩)
    · intro hmem hpath
      obtain ⟨e, he, hep⟩ := List.mem_map.mp hpath
      obtain ⟨n, hn⟩ := List.mem_of_mem_take (mem_overFileCap.mp he) |> fun h =>
        List.mem_map.mp (List.mem_filter.mp h).1
      have hnf : n = f := by
        refine hd.path_inj (mem_listing.mp hn.1) hfd ?_
        rw [← hep, ← hn.2]
        rfl
      subst hnf
      rw [← hn.2] at he
      exact hover.mp he ⟨hf, hmem⟩
  unfold withinFileCap listEntries
  rw [List.filter_map]
  congr 1
  refine List.filter_congr fun f hf => ?_
  exact decide_eq_decide.mpr (hiff f hf)

theorem listedFrom_append {l m : Disk} {f : StoredFile} (h : f ∉ l) :
    listedFrom f (l ++ f :: m) = f :: m := by
  unfold listedFrom
  rw [List.dropWhile_append_of_pos]
  · rw [List.dropWhile_cons_of_neg]
    simp
  · intro g hg
    simp only [decide_not, Bool.not_eq_true', decide_eq_false_iff_not]
    rintro rfl
    exact h hg

theorem Stamped.nodup_map_entry {disk l : Disk} (hd : Stamped disk) (cfg : BackupConfig)
    (hl : l.Nodup) (hsub : l ⊆ disk) : (l.map (StoredFile.entry cfg)).Nodup :=
  hl.map_on fun _ hg _ hh heq => entry_injOn hd (hsub hg) (hsub hh) heq

/-- The byte cap evicts a file when it and the files listed after it do not fit. -/
theorem mem_evictFront_entry {cfg : BackupConfig} {disk l : Disk} (hd : Stamped disk)
    (hl : l.Nodup) (hsub : l ⊆ disk) {f : StoredFile} (hf : f ∈ l) (cap : Nat) :
    f.entry cfg ∈ (evictFront cap (l.map (StoredFile.entry cfg))).1 ↔
      cap < diskBytes cfg (listedFrom f l) := by
  obtain ⟨a, b, hsplit⟩ := List.append_of_mem hf
  have hfa : f ∉ a := by
    intro hmem
    rw [hsplit] at hl
    exact (List.nodup_append.mp hl).2.2 f hmem f List.mem_cons_self rfl
  rw [hsplit, listedFrom_append hfa, diskBytes, List.map_append, mem_evictFront]
  constructor
  · rintro ⟨c, d, heq, hlt⟩
    -- the entry stands at one place only
    have hnd := hd.nodup_map_entry cfg hl hsub
    rw [hsplit, List.map_append] at hnd
    have hsame : b.map (StoredFile.entry cfg) = d := by
      have ha : f.entry cfg ∉ a.map (StoredFile.entry cfg) := by
        intro hmem
        exact (List.nodup_append.mp hnd).2.2 _ hmem _ List.mem_cons_self rfl
      rw [List.map_cons] at heq
      have hb : f.entry cfg ∉ b.map (StoredFile.entry cfg) :=
        (List.nodup_cons.mp (List.nodup_append.mp hnd).2.1).1
      exact ((List.append_cons_inj_of_notMem ha hb).mp heq).2.2
    rw [List.map_cons, hsame]
    exact hlt
  · intro hlt
    exact ⟨_, _, rfl, hlt⟩

theorem Stamped.nodup_withinFileCap {disk : Disk} (hd : Stamped disk) (cap : Nat) :
    (withinFileCap cap disk).Nodup :=
  hd.nodup_listing.filter _

theorem withinFileCap_subset (cap : Nat) (disk : Disk) : withinFileCap cap disk ⊆ disk :=
  fun _ hf => mem_listing.mp (List.mem_of_mem_filter hf)

/-- The planner chooses a file. -/
theorem mem_evicted {cfg : BackupConfig} {disk : Disk} (hd : Stamped disk) {f : StoredFile}
    (hf : f ∈ disk) : f.path ∈ evicted cfg disk ↔
      f.entry cfg ∈ (planEviction (listEntries cfg disk) cfg.perFileVersionCap
        cfg.globalSizeCapBytes).toDelete := by
  unfold evicted
  rw [List.mem_map]
  constructor
  · rintro ⟨e, he, hpath⟩
    obtain ⟨g, hg, rfl⟩ := List.mem_map.mp (toDelete_subset _ _ _ he)
    exact hd.path_inj (mem_listing.mp hg) hf hpath ▸ he
  · intro he
    exact ⟨_, he, rfl⟩

/-- One eviction leaves the files that neither cap evicts. -/
theorem mem_runEviction {cfg : BackupConfig} {disk : Disk} (hd : Stamped disk) {f : StoredFile} :
    f ∈ runEviction cfg disk ↔ f ∈ withinFileCap cfg.perFileVersionCap disk ∧
      ¬ cfg.globalSizeCapBytes <
        diskBytes cfg (listedFrom f (withinFileCap cfg.perFileVersionCap disk)) := by
  have hsub := withinFileCap_subset cfg.perFileVersionCap disk
  have hnd := hd.nodup_withinFileCap cfg.perFileVersionCap
  rw [runEviction, List.mem_filter, decide_eq_true_eq]
  by_cases hfd : f ∈ disk
  · rw [mem_evicted hd hfd, planEviction]
    simp only [hd.sortByDate, filter_notMem_overFileCap hd, List.mem_append,
      mem_overFileCap_entry cfg hd hfd]
    by_cases hwithin : f ∈ withinFileCap cfg.perFileVersionCap disk
    · rw [mem_evictFront_entry hd hnd hsub hwithin]
      simp [hfd, hwithin]
    · simp [hwithin]
  · exact ⟨fun h => absurd h.1 hfd, fun h => absurd (hsub h.1) hfd⟩

/-- What an eviction leaves fits into the byte cap. -/
theorem runEviction_fits {cfg : BackupConfig} {disk : Disk} (hd : Stamped disk) :
    diskBytes cfg (runEviction cfg disk) ≤ cfg.globalSizeCapBytes := by
  have hsub := withinFileCap_subset cfg.perFileVersionCap disk
  have hnd := hd.nodup_withinFileCap cfg.perFileVersionCap
  have hkept : (runEviction cfg disk).Nodup := hd.nodup.of_map.filter _
  have hfits := evictFront_fits cfg.globalSizeCapBytes
    ((withinFileCap cfg.perFileVersionCap disk).map (StoredFile.entry cfg))
  have hsplit := evictFront_append cfg.globalSizeCapBytes
    ((withinFileCap cfg.perFileVersionCap disk).map (StoredFile.entry cfg))
  have hentries := hd.nodup_map_entry cfg hnd hsub
  have hparts := hsplit ▸ hentries
  -- the kept files in the order of the disk are the kept entries in the order of the listing
  have hperm : ((runEviction cfg disk).map (StoredFile.entry cfg)).Perm
      (evictFront cfg.globalSizeCapBytes
        ((withinFileCap cfg.perFileVersionCap disk).map (StoredFile.entry cfg))).2 := by
    refine (List.perm_ext_iff_of_nodup (hd.nodup_map_entry cfg hkept (List.filter_subset_self _))
      (List.nodup_append.mp hparts).2.1).mpr fun e => ?_
    constructor
    · intro he
      obtain ⟨f, hf, rfl⟩ := List.mem_map.mp he
      obtain ⟨hwithin, hover⟩ := (mem_runEviction hd).mp hf
      have hmem := List.mem_map_of_mem (f := StoredFile.entry cfg) hwithin
      rw [← hsplit, List.mem_append] at hmem
      exact hmem.resolve_left fun h => hover ((mem_evictFront_entry hd hnd hsub hwithin _).mp h)
    · intro he
      have hmem : e ∈ (withinFileCap cfg.perFileVersionCap disk).map (StoredFile.entry cfg) := by
        rw [← hsplit]
        exact List.mem_append_right _ he
      obtain ⟨f, hf, rfl⟩ := List.mem_map.mp hmem
      refine List.mem_map_of_mem ((mem_runEviction hd).mpr ⟨hf, fun hover => ?_⟩)
      have hfront := (mem_evictFront_entry hd hnd hsub hf _).mpr hover
      exact (List.nodup_append.mp hparts).2.2 _ hfront _ he rfl
  rw [diskBytes, totalBytes_perm hperm]
  exact hfits

/-! ## Files and versions -/

theorem length_newest {α : Type} (n : Nat) (l : List α) : (newest n l).length = min l.length n := by
  rw [newest, List.length_drop]
  omega

theorem newest_of_le {α : Type} {n : Nat} {l : List α} (h : l.length ≤ n) : newest n l = l := by
  rw [newest, Nat.sub_eq_zero_of_le h, List.drop_zero]

theorem newest_append {α : Type} {n : Nat} (l : List α) {m : List α} (h : m.length = n) :
    newest n (l ++ m) = m := by
  rw [newest, List.length_append, h, Nat.add_sub_cancel, List.drop_left]

theorem Stamped.read_path {disk : Disk} (hd : Stamped disk) {f : StoredFile} (hf : f ∈ disk) :
    read disk f.path = some f.content :=
  read_path_of_mem hd.nodup hf

/-- In a store of whole versions the record of a version without content is the
only file of its version. -/
theorem bare_alone {disk : Disk} (hd : Stamped disk) (hw : Whole disk) {f g : StoredFile}
    (hf : f ∈ disk) (hg : g ∈ disk) (hbare : g.bare) (hkey : f.path.key = g.path.key)
    (hstamp : f.path.stamp = g.path.stamp) : f = g := by
  have hwg := hw g hg
  have hwf := hw f hf
  unfold StoredFile.bare at hbare
  cases hgc : g.content with
  | blob b =>
    rw [hgc] at hbare
    exact hbare.elim
  | sidecar m =>
    rw [hgc] at hbare hwg
    cases hfc : f.content with
    | sidecar n =>
      rw [hfc] at hwf
      refine hd.path_inj hf hg ?_
      cases hfp : f.path
      cases hgp : g.path
      simp_all
    | blob b =>
      -- the sidecar of `f` would be `g`
      rw [hfc] at hwf
      obtain ⟨-, n, hn, hkind⟩ := hwf
      have hpath : f.path.withExt .sidecar = g.path := by
        rw [BackupPath.withExt, hkey, hstamp, ← hwg.1]
      rw [hpath, readMeta_eq_some, hd.read_path hg, hgc] at hn
      injection hn with hn
      injection hn with hn
      subst hn
      exact absurd hbare hkind

theorem mem_stampsOf_self {disk : Disk} {f : StoredFile} (hf : f ∈ disk) :
    f.path.stamp ∈ stampsOf disk f.path.key :=
  mem_stampsOf.mpr ⟨f, hf, rfl, rfl⟩

/-- Where it counts files as versions, the per-file cap leaves the newest
versions. -/
theorem withinFileCap_eq {cfg : BackupConfig} {disk : Disk} (hd : Stamped disk) (hw : Whole disk)
    (he : EvictsByTime cfg disk) :
    withinFileCap cfg.perFileVersionCap disk = newestVersions cfg.perFileVersionCap disk := by
  refine List.filter_congr fun f hf => decide_eq_decide.mpr ?_
  have hfd := mem_listing.mp hf
  have hfiles : f ∈ filesOf disk f.path.key := mem_filesOf.mpr ⟨hfd, rfl⟩
  by_cases hfew : (filesOf disk f.path.key).length ≤ cfg.perFileVersionCap
  · have hstamps : (stampsOf disk f.path.key).length ≤ cfg.perFileVersionCap := by
      refine le_trans (List.dedup_sublist _).length_le ?_
      rwa [List.length_map]
    rw [newest_of_le hfew, newest_of_le hstamps]
    exact ⟨fun _ => mem_stampsOf_self hfd, fun _ => hfiles⟩
  · have hbare := (he.byFile f.path.key).resolve_left hfew
    -- the files are older ones and the newest, which are versions of one file each
    obtain ⟨old, new, hsplit, hnew⟩ : ∃ old new, filesOf disk f.path.key = old ++ new ∧
        new = newest cfg.perFileVersionCap (filesOf disk f.path.key) :=
      ⟨_, _, (List.take_append_drop _ _).symm, rfl⟩
    have hlen : new.length = cfg.perFileVersionCap := by
      rw [hnew, length_newest]
      omega
    rw [← hnew] at hbare ⊢
    have hmem : ∀ g ∈ old ++ new, g ∈ disk ∧ g.path.key = f.path.key := by
      rw [← hsplit]
      exact fun g hg => mem_filesOf.mp hg
    have hnd : (old ++ new).Nodup := hsplit ▸ hd.nodup_listing.filter _
    have halone : ∀ g ∈ old ++ new, ∀ h ∈ new, g.path.stamp = h.path.stamp → g = h := by
      intro g hg h hh heq
      have hhm := hmem h (List.mem_append_right _ hh)
      exact bare_alone hd hw (hmem g hg).1 hhm.1 (hbare h hh)
        ((hmem g hg).2.trans hhm.2.symm) heq
    have hdisj : (old.map fun g => g.path.stamp).Disjoint (new.map fun g => g.path.stamp) := by
      intro s hs ht
      obtain ⟨g, hg, rfl⟩ := List.mem_map.mp hs
      obtain ⟨h, hh, heq⟩ := List.mem_map.mp ht
      have hgh := halone g (List.mem_append_left _ hg) h hh heq.symm
      exact (List.nodup_append.mp hnd).2.2 g hg h hh hgh
    have hnewnd : (new.map fun g => g.path.stamp).Nodup :=
      (List.nodup_append.mp hnd).2.1.map_on fun g hg h hh heq =>
        halone g (List.mem_append_right _ hg) h hh heq
    have hstamps : newest cfg.perFileVersionCap (stampsOf disk f.path.key) =
        new.map fun g => g.path.stamp := by
      rw [stampsOf, hsplit, List.map_append, hdisj.dedup_append, hnewnd.dedup]
      exact newest_append _ (by rw [List.length_map, hlen])
    rw [hstamps, List.mem_map]
    constructor
    · intro hfn
      exact ⟨f, hfn, rfl⟩
    · rintro ⟨g, hg, heq⟩
      rw [hsplit] at hfiles
      exact halone f hfiles g hg heq.symm ▸ hg

theorem mem_newestVersions {cap : Nat} {disk : Disk} {f : StoredFile} :
    f ∈ newestVersions cap disk ↔
      f ∈ disk ∧ f.path.stamp ∈ newest cap (stampsOf disk f.path.key) := by
  unfold newestVersions
  rw [List.mem_filter, mem_listing, decide_eq_true_eq]

/-- A file stays when it is of the newest versions of its target and fits with
the files that are not older. -/
theorem mem_runEviction_iff {cfg : BackupConfig} {disk : Disk} (hd : Stamped disk)
    (hw : Whole disk) (he : EvictsByTime cfg disk) {f : StoredFile} :
    f ∈ runEviction cfg disk ↔ f ∈ newestVersions cfg.perFileVersionCap disk ∧
      diskBytes cfg (since f.path.stamp (newestVersions cfg.perFileVersionCap disk)) ≤
        cfg.globalSizeCapBytes := by
  have hsize := he.bySize f
  rw [withinFileCap_eq hd hw he] at hsize
  rw [mem_runEviction hd, withinFileCap_eq hd hw he]
  constructor
  · rintro ⟨hmem, hfits⟩
    exact ⟨hmem, Nat.le_of_not_lt fun h => hfits ((hsize hmem).mpr h)⟩
  · rintro ⟨hmem, hfits⟩
    exact ⟨hmem, fun h => Nat.not_lt_of_le hfits ((hsize hmem).mp h)⟩

theorem older.trans {s t u : Str} (h₁ : older s t) (h₂ : older t u) : older s u := by
  by_contra h
  have hus : lexLe (textKey u) (textKey s) = true := by
    rw [older] at h
    simpa using h
  rcases lexLe_total (textKey s) (textKey t) with hst | hts
  · have hut := lexLe_trans hus hst
    rw [older] at h₂
    rw [h₂] at hut
    cases hut
  · rw [older] at h₁
    rw [h₁] at hts
    cases hts

theorem diskBytes_since_le {cfg : BackupConfig} {disk : Disk} {s t : Str} (h : older s t) :
    diskBytes cfg (since t disk) ≤ diskBytes cfg (since s disk) := by
  induction disk with
  | nil => exact le_refl _
  | cons f disk ih =>
    unfold since diskBytes at ih ⊢
    rw [List.filter_cons, List.filter_cons]
    by_cases hs : older f.path.stamp s
    · have ht := older.trans hs h
      simpa [hs, ht] using ih
    · by_cases ht : older f.path.stamp t
      · simp only [hs, ht, not_true, not_false_eq_true, decide_true, decide_false, if_true,
          Bool.false_eq_true, if_false, List.map_cons]
        exact le_trans ih (Nat.le_add_left _ _)
      · simp only [hs, ht, not_false_eq_true, decide_true, if_true, List.map_cons]
        exact Nat.add_le_add_left ih _

theorem runEviction_sublist (cfg : BackupConfig) (disk : Disk) :
    (runEviction cfg disk).Sublist disk :=
  List.filter_sublist

theorem Stamped.runEviction {disk : Disk} (hd : Stamped disk) (cfg : BackupConfig) :
    Stamped (runEviction cfg disk) :=
  hd.sublist (runEviction_sublist cfg disk)

/-- The stamps left in a directory. -/
theorem mem_stampsOf_runEviction {cfg : BackupConfig} {disk : Disk} (hd : Stamped disk)
    (hw : Whole disk) (he : EvictsByTime cfg disk) {key s : Str} :
    s ∈ stampsOf (runEviction cfg disk) key ↔
      s ∈ newest cfg.perFileVersionCap (stampsOf disk key) ∧
        diskBytes cfg (since s (newestVersions cfg.perFileVersionCap disk)) ≤
          cfg.globalSizeCapBytes := by
  rw [mem_stampsOf]
  constructor
  · rintro ⟨f, hf, rfl, rfl⟩
    obtain ⟨hmem, hfits⟩ := (mem_runEviction_iff hd hw he).mp hf
    exact ⟨(mem_newestVersions.mp hmem).2, hfits⟩
  · rintro ⟨hnew, hfits⟩
    obtain ⟨f, hf, rfl, rfl⟩ := mem_stampsOf.mp (List.mem_of_mem_drop hnew)
    exact ⟨f, (mem_runEviction_iff hd hw he).mpr ⟨mem_newestVersions.mpr ⟨hf, hnew⟩, hfits⟩,
      rfl, rfl⟩

/-- The files of one version stay or go together. -/
theorem read_runEviction {cfg : BackupConfig} {disk : Disk} (hd : Stamped disk) (hw : Whole disk)
    (he : EvictsByTime cfg disk) {f : StoredFile} (hf : f ∈ runEviction cfg disk) (ext : Ext) :
    read (runEviction cfg disk) (f.path.withExt ext) = read disk (f.path.withExt ext) := by
  cases hread : read disk (f.path.withExt ext) with
  | none =>
    unfold read at hread ⊢
    rw [Option.map_eq_none_iff, KeyedList.lookup_eq_none_iff] at hread ⊢
    exact fun g hg => hread g ((runEviction_sublist cfg disk).subset hg)
  | some c =>
    have hmem := mem_of_read hread
    obtain ⟨hnew, hfits⟩ := (mem_runEviction_iff hd hw he).mp hf
    have hkept : (⟨f.path.withExt ext, c⟩ : StoredFile) ∈ runEviction cfg disk :=
      (mem_runEviction_iff hd hw he).mpr
        ⟨mem_newestVersions.mpr ⟨hmem, (mem_newestVersions.mp hnew).2⟩, hfits⟩
    exact (hd.runEviction cfg).read_path hkept

theorem whole_runEviction {cfg : BackupConfig} {disk : Disk} (hd : Stamped disk) (hw : Whole disk)
    (he : EvictsByTime cfg disk) : Whole (runEviction cfg disk) := by
  intro f hf
  have hwf := hw f ((runEviction_sublist cfg disk).subset hf)
  cases hfc : f.content with
  | blob b =>
    rw [hfc] at hwf
    obtain ⟨hext, m, hm, hkind⟩ := hwf
    refine ⟨hext, m, ?_, hkind⟩
    rw [readMeta_eq_some, read_runEviction hd hw he hf]
    exact readMeta_eq_some.mp hm
  | sidecar m =>
    rw [hfc] at hwf
    obtain ⟨hext, hpair⟩ := hwf
    refine ⟨hext, hpair.imp_right fun h => ?_⟩
    rwa [read_runEviction hd hw he hf]

theorem diskBytes_le_of_sublist (cfg : BackupConfig) {l disk : Disk}
    (h : l.Sublist (listing disk)) : diskBytes cfg l ≤ diskBytes cfg disk := by
  refine le_trans (totalBytes_sublist (h.map _)) (le_of_eq ?_)
  exact totalBytes_perm ((sortOn_perm _ disk).map _)

/-- Under the byte cap the order does not matter. -/
theorem bySize_of_fits {cfg : BackupConfig} {disk : Disk}
    (hbytes : diskBytes cfg disk ≤ cfg.globalSizeCapBytes) (f : StoredFile) :
    cfg.globalSizeCapBytes <
        diskBytes cfg (listedFrom f (withinFileCap cfg.perFileVersionCap disk)) ↔
      cfg.globalSizeCapBytes <
        diskBytes cfg (since f.path.stamp (withinFileCap cfg.perFileVersionCap disk)) := by
  have hwithin : (withinFileCap cfg.perFileVersionCap disk).Sublist (listing disk) :=
    List.filter_sublist
  have hlisted := diskBytes_le_of_sublist cfg
    ((List.dropWhile_sublist fun g => g ≠ f).trans hwithin)
  have hsince := diskBytes_le_of_sublist cfg
    ((List.filter_sublist (p := fun g => ¬ older g.path.stamp f.path.stamp)).trans hwithin)
  exact iff_of_false (Nat.not_lt_of_le (le_trans hlisted hbytes))
    (Nat.not_lt_of_le (le_trans hsince hbytes))

/-- A store of versions without content, within the byte cap. -/
theorem evictsByTime_of_bare {cfg : BackupConfig} {disk : Disk} (hbare : ∀ f ∈ disk, f.bare)
    (hbytes : diskBytes cfg disk ≤ cfg.globalSizeCapBytes) : EvictsByTime cfg disk where
  byFile _ := Or.inr fun f hf => hbare f (mem_filesOf.mp (List.mem_of_mem_drop hf)).1
  bySize f _ := bySize_of_fits hbytes f

/-- One eviction of a store of whole versions. -/
theorem keepsNewest_of_evictsByTime {cfg : BackupConfig} {disk : Disk} (hd : Stamped disk)
    (hw : Whole disk) (he : EvictsByTime cfg disk) : KeepsNewest cfg disk (runEviction cfg disk) where
  whole := whole_runEviction hd hw he
  capped key s hs := ((mem_stampsOf_runEviction hd hw he).mp hs).1
  count key hall := by
    have hperm : (stampsOf (runEviction cfg disk) key).Perm
        (newest cfg.perFileVersionCap (stampsOf disk key)) := by
      refine (List.perm_ext_iff_of_nodup (List.nodup_dedup _)
        ((List.nodup_dedup _).sublist (List.drop_sublist _ _))).mpr fun s => ?_
      exact ⟨fun hs => ((mem_stampsOf_runEviction hd hw he).mp hs).1, hall s⟩
    rw [hperm.length_eq, length_newest]
  forced key s hnew hgone := by
    by_contra hfits
    exact hgone ((mem_stampsOf_runEviction hd hw he).mpr ⟨hnew, Nat.le_of_not_lt hfits⟩)
  oldestFirst key s hnew hgone key' s' hs' hold := by
    refine hgone ((mem_stampsOf_runEviction hd hw he).mpr ⟨hnew, ?_⟩)
    exact le_trans (diskBytes_since_le hold) ((mem_stampsOf_runEviction hd hw he).mp hs').2
  fits := runEviction_fits hd

/-! ## Runs -/

/-- The arguments of one call of `storeBackup`. -/
structure StoreCall where
  target : BackupTarget
  kind : BackupKind
  newHash : Str
  now : Instant

/-- The store after some calls. -/
def storeAll (rt : Runtime) (cfg : BackupConfig) (calls : List StoreCall) : Disk :=
  calls.foldl (fun disk c => (storeBackup rt cfg c.target c.kind c.newHash c.now disk).2) []

theorem storeAll_append (rt : Runtime) (cfg : BackupConfig) (calls : List StoreCall)
    (c : StoreCall) : storeAll rt cfg (calls ++ [c]) =
      (storeBackup rt cfg c.target c.kind c.newHash c.now (storeAll rt cfg calls)).2 := by
  rw [storeAll, List.foldl_append]
  rfl

/-- What the calls of a run keep true of the store. -/
structure Versioned (calls : List StoreCall) (disk : Disk) : Prop where
  stamped : Stamped disk
  whole : Whole disk
  past : ∀ f ∈ disk, ∃ c ∈ calls, f.path.stamp = stamp c.now

theorem versioned_nil : Versioned [] [] where
  stamped := ⟨List.nodup_nil, fun _ hf => absurd hf List.not_mem_nil⟩
  whole _ hf := absurd hf List.not_mem_nil
  past _ hf := absurd hf List.not_mem_nil

theorem read_append_of_mem {disk l : Disk} {p : BackupPath} {c : Content}
    (h : read disk p = some c) : read (disk ++ l) p = some c := by
  unfold read KeyedList.lookup at h ⊢
  obtain ⟨f, hf, rfl⟩ := Option.map_eq_some_iff.mp h
  rw [List.find?_append, hf]
  rfl

theorem Stamped.append {rt : Runtime} {target : BackupTarget} {now : Instant} {disk : Disk}
    (hd : Stamped disk) (h : Fresh rt target now disk) (kind : BackupKind) (newHash : Str) :
    Stamped (disk ++ storedFiles rt target kind newHash now) where
  nodup := by
    rw [List.map_append, List.nodup_append]
    refine ⟨hd.nodup, nodup_storedFiles rt target kind newHash now, ?_⟩
    intro p hp q hq heq
    obtain ⟨f, hf, rfl⟩ := List.mem_map.mp hp
    obtain ⟨g, hg, rfl⟩ := List.mem_map.mp hq
    obtain ⟨hkey, hstamp⟩ := storedFiles_path hg
    exact h f hf (heq ▸ hkey) (heq ▸ hstamp)
  stamps f hf := by
    rw [List.mem_append] at hf
    rcases hf with hf | hf
    · exact hd.stamps f hf
    · exact ⟨now, (storedFiles_path hf).2⟩

/-- The files of one call form a whole version. -/
theorem Whole.append {rt : Runtime} {target : BackupTarget} {now : Instant} {disk : Disk}
    (hw : Whole disk) (kind : BackupKind) (newHash : Str)
    (hd : Stamped (disk ++ storedFiles rt target kind newHash now)) :
    Whole (disk ++ storedFiles rt target kind newHash now) := by
  intro f hf
  rw [List.mem_append] at hf
  rcases hf with hf | hf
  · have hwf := hw f hf
    cases hfc : f.content with
    | blob b =>
      rw [hfc] at hwf
      obtain ⟨hext, m, hm, hkind⟩ := hwf
      exact ⟨hext, m, readMeta_eq_some.mpr (read_append_of_mem (readMeta_eq_some.mp hm)), hkind⟩
    | sidecar m =>
      rw [hfc] at hwf
      obtain ⟨hext, hpair⟩ := hwf
      refine ⟨hext, hpair.imp_right fun h => ?_⟩
      obtain ⟨c, hc⟩ := Option.isSome_iff_exists.mp h
      rw [read_append_of_mem hc]
      rfl
  · have hread := fun g hg => hd.read_path (f := g) (List.mem_append_right _ hg)
    cases kind with
    | dedup existingPath => cases hf
    | metadataOnly =>
      obtain rfl := List.mem_singleton.mp hf
      exact ⟨rfl, Or.inl rfl⟩
    | gzipDiff blob requiresBaseHash =>
      have hblob := hread _ List.mem_cons_self
      have hmeta := hread _ (List.mem_cons_of_mem _ List.mem_cons_self)
      rcases List.mem_cons.mp hf with rfl | hf
      · exact ⟨rfl, _, readMeta_eq_some.mpr hmeta, nofun⟩
      · obtain rfl := List.mem_singleton.mp hf
        refine ⟨rfl, Or.inr ?_⟩
        exact Option.isSome_iff_exists.mpr ⟨_, hblob⟩
    | gzipFull blob reanchored =>
      have hblob := hread _ List.mem_cons_self
      have hmeta := hread _ (List.mem_cons_of_mem _ List.mem_cons_self)
      rcases List.mem_cons.mp hf with rfl | hf
      · exact ⟨rfl, _, readMeta_eq_some.mpr hmeta, nofun⟩
      · obtain rfl := List.mem_singleton.mp hf
        refine ⟨rfl, Or.inr ?_⟩
        exact Option.isSome_iff_exists.mpr ⟨_, hblob⟩

/-- The stamp of a later call is fresh. -/
theorem Versioned.fresh {rt : Runtime} {calls : List StoreCall} {disk : Disk}
    (h : Versioned calls disk) {now : Instant} (hnow : ∀ d ∈ calls, d.now.before now)
    (target : BackupTarget) : Fresh rt target now disk := by
  intro f hf _ hstamp
  obtain ⟨d, hd, hpast⟩ := h.past f hf
  exact (hnow d hd).ne (stamp_injective (hpast.symm.trans hstamp))

/-- One call of a run. -/
theorem Versioned.step {rt : Runtime} {cfg : BackupConfig} {calls : List StoreCall} {c : StoreCall}
    {disk : Disk} (h : Versioned calls disk) (he : EvictsByTime cfg disk)
    (hnow : ∀ d ∈ calls, d.now.before c.now) :
    Versioned (calls ++ [c]) (storeBackup rt cfg c.target c.kind c.newHash c.now disk).2 := by
  have hevict : Versioned calls (runEviction cfg disk) :=
    ⟨h.stamped.runEviction cfg, whole_runEviction h.stamped h.whole he,
      fun f hf => h.past f ((runEviction_sublist cfg disk).subset hf)⟩
  have hfresh : Fresh rt c.target c.now (runEviction cfg disk) := hevict.fresh hnow c.target
  have hstamped := hevict.stamped.append hfresh c.kind c.newHash
  rw [storeBackup_of_fresh hfresh]
  refine ⟨hstamped, hevict.whole.append c.kind c.newHash hstamped, fun f hf => ?_⟩
  rw [List.mem_append] at hf
  rcases hf with hf | hf
  · obtain ⟨d, hd, hpast⟩ := hevict.past f hf
    exact ⟨d, List.mem_append_left _ hd, hpast⟩
  · exact ⟨c, List.mem_append_right _ (List.mem_singleton_self c), (storedFiles_path hf).2⟩

/-- Each call of a run finds a store in which counting files comes to counting
versions. -/
def AlwaysByTime (rt : Runtime) (cfg : BackupConfig) (calls : List StoreCall) : Prop :=
  ∀ past c, past ++ [c] <+: calls → EvictsByTime cfg (storeAll rt cfg past)

theorem versioned_storeAll {rt : Runtime} {cfg : BackupConfig} {calls : List StoreCall}
    (hclock : calls.Pairwise fun c d => c.now.before d.now) (he : AlwaysByTime rt cfg calls) :
    Versioned calls (storeAll rt cfg calls) := by
  induction calls using List.reverseRecOn with
  | nil => exact versioned_nil
  | append_singleton past c ih =>
    rw [List.pairwise_append] at hclock
    have hpast : Versioned past (storeAll rt cfg past) := by
      refine ih hclock.1 fun p d hp => he p d ?_
      exact hp.trans (List.prefix_append past [c])
    rw [storeAll_append]
    refine hpast.step (he past c (List.prefix_refl (past ++ [c]))) fun d hd => ?_
    exact hclock.2.2 d hd c (List.mem_singleton_self c)

/-- In a run at increasing times, when each call finds a store in which counting
files comes to counting versions, every eviction removes whole oldest versions
only. -/
theorem run_keepsNewest (rt : Runtime) (cfg : BackupConfig) (calls : List StoreCall)
    (hclock : calls.Pairwise fun c d => c.now.before d.now) (he : AlwaysByTime rt cfg calls)
    (past : List StoreCall) (c : StoreCall) (hpast : past ++ [c] <+: calls) :
    KeepsNewest cfg (storeAll rt cfg past) (runEviction cfg (storeAll rt cfg past)) := by
  have hpre : past <+: calls := (List.prefix_append past [c]).trans hpast
  have hv : Versioned past (storeAll rt cfg past) :=
    versioned_storeAll (hclock.sublist hpre.sublist) fun p d hp => he p d (hp.trans hpre)
  exact keepsNewest_of_evictsByTime hv.stamped hv.whole (he past c hpast)

/-! ## Two runs -/

/-- A platform whose archives are their contents behind the two magic bytes. -/
def plainRuntime : Runtime where
  sha256 := Digest.lengthPrefixed
  gzip b := 0x1F :: 0x8B :: b
  gunzip
    | 0x1F :: 0x8B :: b => .ok b
    | _ => .error "incorrect header check".toList
  gunzip_gzip _ := rfl
  looseHunks _ _ := .error "hunks is not iterable".toList

/-- The configuration with the given caps. -/
def withCaps (perFileVersionCap globalSizeCapBytes : Nat) : BackupConfig :=
  ⟨"/backups".toList, 1048576, .diff, perFileVersionCap, globalSizeCapBytes, .warn⟩

/-- A second of the first minute of 2026. -/
def atSecond (n : Nat) : Instant :=
  ⟨2026, 1, 1, 0, 0, n % 60, 0, by omega⟩

def motd : BackupTarget := .onHost "/etc/motd".toList

def storeMotd (content : Bytes) (now : Instant) : StoreCall :=
  ⟨motd, .gzipFull (plainRuntime.gzip content) false, contentHash plainRuntime content, now⟩

/-- A write of which only the record is kept. -/
def noteMotd (content : Bytes) (now : Instant) : StoreCall :=
  ⟨motd, .metadataOnly, contentHash plainRuntime content, now⟩

def notedCalls : List StoreCall :=
  [noteMotd [104] (atSecond 1), noteMotd [105] (atSecond 2), noteMotd [106] (atSecond 3)]

/-- A fourth call finds three versions under a cap of two, and the oldest goes. -/
theorem run_keepsNewest_motd :
    KeepsNewest (withCaps 2 1000) (storeAll plainRuntime (withCaps 2 1000) notedCalls)
        (runEviction (withCaps 2 1000) (storeAll plainRuntime (withCaps 2 1000) notedCalls)) ∧
      stampsOf (runEviction (withCaps 2 1000) (storeAll plainRuntime (withCaps 2 1000) notedCalls))
          (fileKey plainRuntime.sha256 motd) = [stamp (atSecond 2), stamp (atSecond 3)] := by
  refine ⟨run_keepsNewest plainRuntime (withCaps 2 1000)
    (notedCalls ++ [noteMotd [107] (atSecond 4)]) (by decide) ?_ notedCalls
    (noteMotd [107] (atSecond 4)) (List.prefix_refl _), by decide +kernel⟩
  intro past c hpast
  have hbare : ∀ n < 4,
      (∀ f ∈ storeAll plainRuntime (withCaps 2 1000) (notedCalls.take n), f.bare) ∧
        diskBytes (withCaps 2 1000) (storeAll plainRuntime (withCaps 2 1000)
          (notedCalls.take n)) ≤ (withCaps 2 1000).globalSizeCapBytes := by
    decide +kernel
  -- what came before a call are the first noted ones
  obtain ⟨rest, hrest⟩ := hpast
  have hlength : past.length < 4 := by
    have hall := congrArg List.length hrest
    simp only [List.length_append, List.length_singleton] at hall
    have hnoted : notedCalls.length = 3 := rfl
    omega
  have htake : past = notedCalls.take past.length := by
    have hfront := congrArg (List.take past.length) hrest
    rw [List.append_assoc, List.take_left, List.take_append_of_le_length] at hfront
    · exact hfront
    · exact Nat.le_of_lt_succ hlength
  rw [htake]
  exact evictsByTime_of_bare (hbare _ hlength).1 (hbare _ hlength).2

/-- With one version and a cap of one, the blob is deleted and the sidecar
stays. -/
theorem not_run_keepsNewest : ¬ ∀ (rt : Runtime) (cfg : BackupConfig) (calls : List StoreCall),
    (calls.Pairwise fun c d => c.now.before d.now) →
      ∀ (past : List StoreCall) (c : StoreCall), past ++ [c] <+: calls →
        KeepsNewest cfg (storeAll rt cfg past) (runEviction cfg (storeAll rt cfg past)) := by
  intro hall
  have h := (hall plainRuntime (withCaps 1 1000)
    [storeMotd [104] (atSecond 1), storeMotd [105] (atSecond 2)] (by decide)
    [storeMotd [104] (atSecond 1)] (storeMotd [105] (atSecond 2)) (List.prefix_refl _)).whole
  have hleft : runEviction (withCaps 1 1000)
      (storeAll plainRuntime (withCaps 1 1000) [storeMotd [104] (atSecond 1)]) =
        (storedFiles plainRuntime motd (.gzipFull (plainRuntime.gzip [104]) false)
          (contentHash plainRuntime [104]) (atSecond 1)).drop 1 := by
    decide +kernel
  rw [hleft] at h
  obtain ⟨-, hkind | hblob⟩ := h _ List.mem_cons_self
  · cases hkind
  · revert hblob
    decide

end HomelabMcp.Backup
