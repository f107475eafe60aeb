import HomelabMcp.Lib.FilePath
import HomelabMcp.Lib.Text
import Mathlib.Data.List.MinMax
import Mathlib.Data.List.Nodup

/-!
# The fast path around `docker cp` (dockerHelpers.ts)

A path in a container is turned into one on the LXC filesystem when the mount it
lies on is visible there. The container sees the mount with the deepest
destination; the resolver looks only at the visible ones.

- `resolveBindMount_eq_some`: what the resolver picks, and where it leads.
- `resolve_follows_mounts_iff`: when that is what the container sees.
-/

namespace HomelabMcp.Docker

open SlashPath FilePath

/-- dockerHelpers.ts:109. -/
structure DockerMount where
  type : Str
  source : Str
  destination : Str
  rw : Bool
  deriving DecidableEq

/-- dockerHelpers.ts:165. -/
structure BindResolution where
  lxcPath : Str
  mount : DockerMount
  deriving DecidableEq

/-- `LOCAL_VOLUME_SOURCE_RE`, read by segments. -/
def isLocalVolumeSource (source : Str) : Bool :=
  let segs := segments source
  decide (segs.take 5 =
      [[], "var".toList, "lib".toList, "docker".toList, "volumes".toList]) &&
    decide (segs.getD 5 [] ≠ []) && decide (segs[6]? = some "_data".toList)

/-- dockerHelpers.ts:192. -/
def isHostVisibleMount (m : DockerMount) : Bool :=
  if m.type = "bind".toList then true
  else if m.type = "volume".toList then isLocalVolumeSource m.source
  else false

/-- dockerHelpers.ts:237. -/
def stripTrailingSlash (p : Str) : Str :=
  if p.length > 1 ∧ p.getLast? = some '/' then (p.reverse.dropWhile (· == '/')).reverse else p

/-- dockerHelpers.ts:242. -/
def isPathPrefix (dir path : Str) : Bool :=
  if dir = ['/'] then ['/'].isPrefixOf path
  else path == dir || (dir ++ ['/']).isPrefixOf path

/-- The step of the loop, on `best` and `bestLen`. The lengths compared are those
of prefixes of one string. -/
def considerMount (containerPath : Str) (s : Option DockerMount × Int) (m : DockerMount) :
    Option DockerMount × Int :=
  if !isHostVisibleMount m then s
  else
    let dest := stripTrailingSlash m.destination
    if !isPathPrefix dest containerPath then s
    else if (dest.length : Int) > s.2 then (some m, dest.length)
    else s

/-- The path on the LXC filesystem, once a mount has been chosen. -/
def lxcPathOf (best : DockerMount) (containerPath : Str) : Str :=
  let dest := stripTrailingSlash best.destination
  let remainder := if dest = ['/'] then containerPath else containerPath.drop dest.length
  let source := stripTrailingSlash best.source
  if remainder ≠ [] then source ++ remainder else if source = [] then ['/'] else source

/-- dockerHelpers.ts:212. -/
def resolveBindMount (mounts : List DockerMount) (containerPath : Str) : Option BindResolution :=
  (mounts.foldl (considerMount containerPath) (none, -1)).1.map fun best =>
    ⟨lxcPathOf best containerPath, best⟩

/-! ## Paths by their components -/

def IsComponent (s : Str) : Prop :=
  s ≠ [] ∧ '/' ∉ s ∧ s ≠ here ∧ s ≠ up

instance (s : Str) : Decidable (IsComponent s) :=
  inferInstanceAs (Decidable (s ≠ [] ∧ '/' ∉ s ∧ s ≠ here ∧ s ≠ up))

/-- The absolute path with these components. -/
def pathText (l : List Str) : Str :=
  '/' :: ['/'].intercalate l

/-- An absolute path without `.`, `..` and empty components. -/
def Canonical (p : Str) : Prop :=
  ∃ l, (∀ s ∈ l, IsComponent s) ∧ p = pathText l

/-- The components of a path, however many slashes stand between them. -/
def components (p : Str) : List Str :=
  (segments p).filter fun s => decide (s ≠ [])

@[simp] theorem components_nil : components [] = [] := rfl

theorem components_slash (a b : Str) : components (a ++ '/' :: b) = components a ++ components b := by
  rw [components, segments_slash, List.filter_append]
  rfl

theorem components_cons_slash (b : Str) : components ('/' :: b) = components b :=
  components_slash [] b

theorem segments_pathText {l : List Str} (hne : l ≠ []) (hl : ∀ s ∈ l, IsComponent s) :
    segments (pathText l) = [] :: l := by
  show segments ([] ++ '/' :: _) = _
  rw [segments_slash]
  exact congrArg ([] :: ·) (List.splitOn_intercalate '/' (fun s hs => (hl s hs).2.1) hne)

@[simp] theorem components_pathText {l : List Str} (hl : ∀ s ∈ l, IsComponent s) :
    components (pathText l) = l := by
  by_cases hne : l = []
  · subst hne
    rfl
  · rw [components, segments_pathText hne hl, List.filter_cons_of_neg (by decide)]
    exact List.filter_eq_self.mpr fun s hs => decide_eq_true (hl s hs).1

theorem pathText_append {l t : List Str} (hl : l ≠ []) (ht : t ≠ []) :
    pathText (l ++ t) = pathText l ++ '/' :: ['/'].intercalate t := by
  rw [pathText, intercalate_append hl ht]
  rfl

/-- A path gets longer with every component. -/
theorem length_pathText_lt {l t : List Str} (ht : t ≠ []) (hcomp : ∀ s ∈ t, IsComponent s) :
    (pathText l).length < (pathText (l ++ t)).length := by
  by_cases hl : l = []
  · subst hl
    obtain ⟨s, t, rfl⟩ := List.exists_cons_of_ne_nil ht
    have hs : 0 < s.length := List.length_pos_iff.mpr (hcomp s List.mem_cons_self).1
    have hlen : s.length ≤ (['/'].intercalate (s :: t)).length :=
      (infix_of_mem_intercalate List.mem_cons_self).length_le
    show 1 < (['/'].intercalate (s :: t)).length + 1
    omega
  · rw [pathText_append hl ht, List.length_append, List.length_cons]
    omega

/-! ## The helpers on canonical paths -/

theorem getLast_pathText {l : List Str} (hne : l ≠ []) (hl : ∀ s ∈ l, IsComponent s) :
    (pathText l).getLast? ≠ some '/' := by
  intro hlast
  have hsplit := List.dropLast_append_getLast? '/' hlast
  have hsegs : segments (pathText l).dropLast ++ [[]] = [] :: l := by
    rw [← segments_pathText hne hl, ← hsplit, segments_slash, hsplit]
    rfl
  -- the empty segment after the last slash would be a component
  have hmem : [] ∈ l := by
    have hgetLast := congrArg List.getLast? hsegs
    rw [List.getLast?_concat, List.getLast?_cons_of_ne_nil hne] at hgetLast
    exact List.mem_of_getLast? hgetLast.symm
  exact (hl [] hmem).1 rfl

theorem stripTrailingSlash_pathText {l : List Str} (hl : ∀ s ∈ l, IsComponent s) :
    stripTrailingSlash (pathText l) = pathText l := by
  by_cases hne : l = []
  · subst hne
    rfl
  · exact if_neg fun h => getLast_pathText hne hl h.2

theorem components_reverse_dropWhile (q : Str) :
    components (q.dropWhile (· == '/')).reverse = components q.reverse := by
  induction q with
  | nil => rfl
  | cons c q ih =>
    by_cases hc : c = '/'
    · subst hc
      rw [List.dropWhile_cons_of_pos (by rfl), ih, List.reverse_cons, components_slash,
        components_nil, List.append_nil]
    · rw [List.dropWhile_cons_of_neg (by simpa using hc)]

theorem components_stripTrailingSlash (p : Str) :
    components (stripTrailingSlash p) = components p := by
  unfold stripTrailingSlash
  split
  · rw [components_reverse_dropWhile, List.reverse_reverse]
  · rfl

/-- The string test is a test of components. -/
theorem isPathPrefix_pathText {l m : List Str} (hl : ∀ s ∈ l, IsComponent s)
    (hm : ∀ s ∈ m, IsComponent s) :
    isPathPrefix (pathText l) (pathText m) = true ↔ l <+: m := by
  unfold isPathPrefix
  by_cases hroot : l = []
  · subst hroot
    exact iff_of_true rfl List.nil_prefix
  · have hlong : pathText l ≠ ['/'] := fun h => by
      have hnil := congrArg components h
      rw [components_pathText hl] at hnil
      exact hroot hnil
    rw [if_neg hlong, Bool.or_eq_true, beq_iff_eq, List.isPrefixOf_iff_prefix,
      eq_or_slash_prefix_iff, segments_pathText hroot hl]
    by_cases hm0 : m = []
    · subst hm0
      refine iff_of_false ?_ fun h => hroot (List.prefix_nil.mp h)
      intro h
      obtain ⟨s, l, rfl⟩ := List.exists_cons_of_ne_nil hroot
      have hs := (List.cons_prefix_cons.mp (List.cons_prefix_cons.mp h).2).1
      exact (hl s List.mem_cons_self).1 hs
    · rw [segments_pathText hm0 hm, List.cons_prefix_cons]
      exact and_iff_right rfl

/-! ## The mount that a path lies on -/

/-- The path is the mount's destination or lies below it. -/
def Covers (m : DockerMount) (path : Str) : Prop :=
  components m.destination <+: components path

instance (m : DockerMount) (path : Str) : Decidable (Covers m path) :=
  inferInstanceAs (Decidable (components m.destination <+: components path))

/-- No mount that covers the path has a deeper destination. -/
def Deepest (mounts : List DockerMount) (path : Str) (m : DockerMount) : Prop :=
  m ∈ mounts ∧ Covers m path ∧ ∀ other ∈ mounts, Covers other path →
    (components other.destination).length ≤ (components m.destination).length

/-- `lxcPath` is what is left of the path, below the source of the mount. -/
structure Reaches (m : DockerMount) (path lxcPath : Str) : Prop where
  absolute : m.source.head? = some '/' → lxcPath.head? = some '/'
  below : components lxcPath = components m.source ++
    (components path).drop (components m.destination).length

theorem stripTrailingSlash_prefix (p : Str) : stripTrailingSlash p <+: p := by
  unfold stripTrailingSlash
  split
  · have hsuffix := List.dropWhile_suffix (l := p.reverse) (· == '/')
    rwa [← List.reverse_prefix, List.reverse_reverse] at hsuffix
  · exact List.prefix_refl p

/-- What `resolveBindMount` puts after the source. -/
theorem remainder_pathText {l t : List Str} (hl : ∀ s ∈ l, IsComponent s) :
    (if pathText l = ['/'] then pathText (l ++ t) else (pathText (l ++ t)).drop (pathText l).length)
      = pathText t ∨
    t = [] ∧ (if pathText l = ['/'] then pathText (l ++ t)
      else (pathText (l ++ t)).drop (pathText l).length) = [] := by
  by_cases hroot : l = []
  · subst hroot
    exact Or.inl rfl
  · have hlong : pathText l ≠ ['/'] := fun h => by
      have hnil := congrArg components h
      rw [components_pathText hl] at hnil
      exact hroot hnil
    rw [if_neg hlong]
    by_cases ht : t = []
    · subst ht
      rw [List.append_nil, List.drop_length]
      exact Or.inr ⟨rfl, rfl⟩
    · rw [pathText_append hroot ht, List.drop_left]
      exact Or.inl rfl

theorem reaches_lxcPathOf {m : DockerMount} {path : Str} (hdest : Canonical m.destination)
    (hpath : Canonical path) (hcovers : Covers m path) : Reaches m path (lxcPathOf m path) := by
  obtain ⟨l, hl, hdest⟩ := hdest
  obtain ⟨all, hall, rfl⟩ := hpath
  rw [Covers, hdest, components_pathText hl, components_pathText hall] at hcovers
  obtain ⟨t, rfl⟩ := hcovers
  have hbelow : (components (pathText (l ++ t))).drop (components m.destination).length = t := by
    rw [components_pathText hall, hdest, components_pathText hl, List.drop_left]
  have hcomp : components (pathText t) = t :=
    components_pathText fun s hs => hall s (List.mem_append_right l hs)
  have hsource : m.source.head? = some '/' → stripTrailingSlash m.source = [] ∨
      (stripTrailingSlash m.source).head? = some '/' := by
    intro hhead
    obtain ⟨rest, hrest⟩ := stripTrailingSlash_prefix m.source
    cases hstrip : stripTrailingSlash m.source with
    | nil => exact Or.inl rfl
    | cons c strip =>
      rw [← hrest, hstrip] at hhead
      exact Or.inr hhead
  have hsourceComp := components_stripTrailingSlash m.source
  simp only [lxcPathOf, hdest, stripTrailingSlash_pathText hl]
  rcases remainder_pathText (t := t) hl with hrem | ⟨rfl, hrem⟩
  · rw [hrem, if_pos (show pathText t ≠ [] from List.cons_ne_nil _ _)]
    constructor
    · intro hhead
      rcases hsource hhead with hnil | hslash
      · rw [hnil]
        rfl
      · rw [List.head?_append, hslash]
        rfl
    · rw [hbelow, ← hsourceComp, pathText, components_slash, ← components_cons_slash]
      exact congrArg (components _ ++ ·) hcomp
  · rw [hrem, if_neg (not_not_intro rfl)]
    constructor
    · intro hhead
      rcases hsource hhead with hnil | hslash
      · rw [if_pos hnil]
        rfl
      · by_cases hnil : stripTrailingSlash m.source = []
        · rw [if_pos hnil]
          rfl
        · rwa [if_neg hnil]
    · rw [hbelow, List.append_nil, ← hsourceComp]
      by_cases hnil : stripTrailingSlash m.source = []
      · rw [if_pos hnil, hnil]
        rfl
      · rw [if_neg hnil]

/-! ## The loop -/

/-- A mount the loop would take: visible, and the path lies on it. -/
def Candidate (path : Str) (m : DockerMount) : Prop :=
  isHostVisibleMount m = true ∧ isPathPrefix (stripTrailingSlash m.destination) path = true

instance (path : Str) : DecidablePred (Candidate path) := fun m =>
  inferInstanceAs (Decidable (isHostVisibleMount m = true ∧ _ = true))

theorem considerMount_eq (path : Str) (s : Option DockerMount × Int) (m : DockerMount) :
    considerMount path s m =
      if Candidate path m ∧ ((stripTrailingSlash m.destination).length : Int) > s.2 then
        (some m, ((stripTrailingSlash m.destination).length : Int))
      else s := by
  by_cases hv : isHostVisibleMount m = true
  · by_cases hp : isPathPrefix (stripTrailingSlash m.destination) path = true
    · simp [considerMount, Candidate, hv, hp]
    · simp [considerMount, Candidate, hv, hp]
  · simp [considerMount, Candidate, hv]

/-- `best` is the longest candidate so far and `bestLen` its length, or there has
been none. -/
structure BestOf (path : Str) (seen : List DockerMount) (s : Option DockerMount × Int) : Prop where
  longest : ∀ m ∈ seen, Candidate path m →
    ((stripTrailingSlash m.destination).length : Int) ≤ s.2
  nothing : s.1 = none → s.2 = -1
  chosen : ∀ best, s.1 = some best → best ∈ seen ∧ Candidate path best ∧
    s.2 = (stripTrailingSlash best.destination).length

theorem bestOf_considerMount {path : Str} {seen : List DockerMount} {s : Option DockerMount × Int}
    (h : BestOf path seen s) (m : DockerMount) :
    BestOf path (seen ++ [m]) (considerMount path s m) := by
  rw [considerMount_eq]
  by_cases htake : Candidate path m ∧ ((stripTrailingSlash m.destination).length : Int) > s.2
  · rw [if_pos htake]
    refine ⟨fun other hother hcand => ?_, nofun, ?_⟩
    · rcases List.mem_append.mp hother with hseen | hlast
      · exact (h.longest other hseen hcand).trans htake.2.le
      · rw [List.mem_singleton.mp hlast]
    · rintro _ ⟨⟩
      exact ⟨List.mem_append_right seen List.mem_cons_self, htake.1, rfl⟩
  · rw [if_neg htake]
    refine ⟨fun other hother hcand => ?_, h.nothing, fun best hbest => ?_⟩
    · rcases List.mem_append.mp hother with hseen | hlast
      · exact h.longest other hseen hcand
      · obtain rfl := List.mem_singleton.mp hlast
        exact not_lt.mp fun hgt => htake ⟨hcand, hgt⟩
    · obtain ⟨hmem, hrest⟩ := h.chosen best hbest
      exact ⟨List.mem_append_left [m] hmem, hrest⟩

theorem bestOf_foldl (path : Str) (mounts : List DockerMount) :
    BestOf path mounts (mounts.foldl (considerMount path) (none, -1)) := by
  have hrun : ∀ (rest seen : List DockerMount) (s : Option DockerMount × Int), BestOf path seen s →
      BestOf path (seen ++ rest) (rest.foldl (considerMount path) s) := by
    intro rest
    induction rest with
    | nil =>
      intro seen s h
      rwa [List.append_nil]
    | cons m rest ih =>
      intro seen s h
      rw [List.append_cons]
      exact ih _ _ (bestOf_considerMount h m)
  refine hrun mounts [] _ ⟨fun m hm => absurd hm List.not_mem_nil, fun _ => rfl, nofun⟩

/-- What the resolver picks: a candidate no shorter than any other. -/
theorem resolveBindMount_eq_some {mounts : List DockerMount} {path : Str} {r : BindResolution}
    (h : resolveBindMount mounts path = some r) :
    r.mount ∈ mounts ∧ Candidate path r.mount ∧ r.lxcPath = lxcPathOf r.mount path ∧
      ∀ m ∈ mounts, Candidate path m →
        (stripTrailingSlash m.destination).length ≤
          (stripTrailingSlash r.mount.destination).length := by
  obtain ⟨best, hbest, rfl⟩ := Option.map_eq_some_iff.mp h
  have hinv := bestOf_foldl path mounts
  obtain ⟨hmem, hcand, hlen⟩ := hinv.chosen best hbest
  refine ⟨hmem, hcand, rfl, fun m hm hm' => ?_⟩
  have hle := hinv.longest m hm hm'
  rw [hlen] at hle
  exact Int.ofNat_le.mp hle

/-- It picks something whenever there is a candidate. -/
theorem resolveBindMount_eq_none {mounts : List DockerMount} {path : Str} :
    resolveBindMount mounts path = none ↔ ∀ m ∈ mounts, ¬ Candidate path m := by
  have hinv := bestOf_foldl path mounts
  constructor
  · intro h m hm hcand
    have hle := hinv.longest m hm hcand
    rw [hinv.nothing (Option.map_eq_none_iff.mp h)] at hle
    omega
  · intro h
    rw [resolveBindMount, Option.map_eq_none_iff, Option.eq_none_iff_forall_ne_some]
    intro best hbest
    obtain ⟨hmem, hcand, -⟩ := hinv.chosen best hbest
    exact h best hmem hcand

/-! ## The resolver and the container's view -/

variable {mounts : List DockerMount} {path : Str}

theorem candidate_iff {m : DockerMount} (hdest : Canonical m.destination) (hpath : Canonical path) :
    Candidate path m ↔ isHostVisibleMount m = true ∧ Covers m path := by
  obtain ⟨l, hl, hdest⟩ := hdest
  obtain ⟨all, hall, rfl⟩ := hpath
  rw [Candidate, Covers, hdest, stripTrailingSlash_pathText hl, isPathPrefix_pathText hl hall,
    components_pathText hl, components_pathText hall]

/-- Of two destinations above one path, the deeper has the longer string. -/
theorem length_destination_le {m n : DockerMount} (hm : Canonical m.destination)
    (hn : Canonical n.destination) (hmp : Covers m path) (hnp : Covers n path)
    (hle : (stripTrailingSlash m.destination).length ≤ (stripTrailingSlash n.destination).length) :
    (components m.destination).length ≤ (components n.destination).length := by
  obtain ⟨l, hl, hm⟩ := hm
  obtain ⟨k, hk, hn⟩ := hn
  rw [Covers, hm, components_pathText hl] at hmp
  rw [Covers, hn, components_pathText hk] at hnp
  rw [hm, hn, stripTrailingSlash_pathText hl, stripTrailingSlash_pathText hk] at hle
  rw [hm, hn, components_pathText hl, components_pathText hk]
  by_contra hlt
  obtain ⟨t, rfl⟩ := List.prefix_of_prefix_length_le hnp hmp (by omega)
  have ht : t ≠ [] := by
    rintro rfl
    rw [List.append_nil] at hlt
    exact hlt (le_refl _)
  have hlonger := length_pathText_lt (l := k) ht fun s hs => hl s (List.mem_append_right k hs)
  omega

/-- Some mount is the deepest, when any covers the path. -/
theorem exists_deepest {m : DockerMount} (hm : m ∈ mounts) (hcovers : Covers m path) :
    ∃ deepest, Deepest mounts path deepest := by
  have hmem : ∀ other, other ∈ mounts.filter (fun m => decide (Covers m path)) ↔
      other ∈ mounts ∧ Covers other path := fun other => by
    rw [List.mem_filter, decide_eq_true_iff]
  cases hmax : (mounts.filter fun m => decide (Covers m path)).argmax
      fun m => (components m.destination).length with
  | none =>
    have hnil := List.argmax_eq_none.mp hmax
    exact absurd (hnil ▸ (hmem m).mpr ⟨hm, hcovers⟩) List.not_mem_nil
  | some deepest =>
    obtain ⟨hin, hcov⟩ := (hmem deepest).mp (List.argmax_mem hmax)
    exact ⟨deepest, hin, hcov, fun other ho hoc =>
      List.le_of_mem_argmax (f := fun m : DockerMount => (components m.destination).length)
        ((hmem other).mpr ⟨ho, hoc⟩) hmax⟩

/-- With distinct destinations only one mount is the deepest. -/
theorem Deepest.unique (hdistinct : (mounts.map DockerMount.destination).Nodup)
    (hcanonical : ∀ m ∈ mounts, Canonical m.destination) {m n : DockerMount}
    (hm : Deepest mounts path m) (hn : Deepest mounts path n) : m = n := by
  have hlen := le_antisymm (hn.2.2 m hm.1 hm.2.1) (hm.2.2 n hn.1 hn.2.1)
  have hcomp : components m.destination = components n.destination :=
    (List.prefix_of_prefix_length_le hm.2.1 hn.2.1 hlen.le).eq_of_length hlen
  obtain ⟨l, hl, hmd⟩ := hcanonical m hm.1
  obtain ⟨k, hk, hnd⟩ := hcanonical n hn.1
  rw [hmd, hnd, components_pathText hl, components_pathText hk] at hcomp
  exact List.inj_on_of_nodup_map hdistinct hm.1 hn.1 (by rw [hmd, hnd, hcomp])

/-- The resolver leads to where the container sees the path: below the source of
the deepest mount when that is visible on the LXC filesystem, else nowhere. -/
def FollowsMounts (mounts : List DockerMount) (path : Str) : Prop :=
  (∀ m, Deepest mounts path m → isHostVisibleMount m = true →
    ∃ r, resolveBindMount mounts path = some r ∧ r.mount = m ∧ Reaches m path r.lxcPath) ∧
  ∀ r, resolveBindMount mounts path = some r →
    ∃ m, Deepest mounts path m ∧ isHostVisibleMount m = true

/-- The resolver follows the mounts exactly when the path does not lie on a
visible mount that a deeper one, not visible, shadows there. -/
theorem resolve_follows_mounts_iff (hdistinct : (mounts.map DockerMount.destination).Nodup)
    (hcanonical : ∀ m ∈ mounts, Canonical m.destination) (hpath : Canonical path) :
    FollowsMounts mounts path ↔
      ∀ m, Deepest mounts path m → isHostVisibleMount m = false →
        ∀ other ∈ mounts, Covers other path → isHostVisibleMount other = false := by
  have hcand : ∀ m ∈ mounts, Candidate path m ↔ isHostVisibleMount m = true ∧ Covers m path :=
    fun m hm => candidate_iff (hcanonical m hm) hpath
  constructor
  · rintro ⟨-, honly⟩ m hdeep hhidden other hother hcovers
    by_contra hvisible
    rw [Bool.not_eq_false] at hvisible
    cases hres : resolveBindMount mounts path with
    | none =>
      exact resolveBindMount_eq_none.mp hres other hother
        ((hcand other hother).mpr ⟨hvisible, hcovers⟩)
    | some r =>
      obtain ⟨n, hn, hnvisible⟩ := honly r hres
      rw [hdeep.unique hdistinct hcanonical hn, hnvisible] at hhidden
      cases hhidden
  · intro hcond
    constructor
    · intro m hdeep hvisible
      cases hres : resolveBindMount mounts path with
      | none =>
        exact absurd ((hcand m hdeep.1).mpr ⟨hvisible, hdeep.2.1⟩)
          (resolveBindMount_eq_none.mp hres m hdeep.1)
      | some r =>
        obtain ⟨hmem, hrcand, hlxc, hlongest⟩ := resolveBindMount_eq_some hres
        obtain ⟨-, hrcovers⟩ := (hcand r.mount hmem).mp hrcand
        have hle := length_destination_le (hcanonical m hdeep.1) (hcanonical r.mount hmem)
          hdeep.2.1 hrcovers (hlongest m hdeep.1 ((hcand m hdeep.1).mpr ⟨hvisible, hdeep.2.1⟩))
        -- as deep as the deepest, the chosen mount is the deepest
        have hrdeep : Deepest mounts path r.mount :=
          ⟨hmem, hrcovers, fun other ho hoc => (hdeep.2.2 other ho hoc).trans hle⟩
        obtain rfl := hrdeep.unique hdistinct hcanonical hdeep
        exact ⟨r, rfl, rfl, hlxc ▸ reaches_lxcPathOf (hcanonical _ hmem) hpath hrcovers⟩
    · intro r hres
      obtain ⟨hmem, hrcand, -⟩ := resolveBindMount_eq_some hres
      obtain ⟨hrvisible, hrcovers⟩ := (hcand r.mount hmem).mp hrcand
      obtain ⟨m, hdeep⟩ := exists_deepest hmem hrcovers
      refine ⟨m, hdeep, ?_⟩
      by_contra hhidden
      rw [Bool.not_eq_true] at hhidden
      rw [hcond m hdeep hhidden r.mount hmem hrcovers] at hrvisible
      cases hrvisible

/-- A bind with a tmpfs inside it. -/
def shadowedMounts : List DockerMount :=
  [⟨"bind".toList, "/srv/config".toList, "/config".toList, true⟩,
    ⟨"tmpfs".toList, [], "/config/cache".toList, true⟩]

theorem canonical_of_components {p : Str} (h : p = pathText (components p))
    (hc : ∀ s ∈ components p, IsComponent s) : Canonical p :=
  ⟨components p, hc, h⟩

/-- A bind, a volume below it that is a bind as well, and a tmpfs elsewhere. -/
def nestedMounts : List DockerMount :=
  [⟨"bind".toList, "/srv/config".toList, "/config".toList, true⟩,
    ⟨"bind".toList, "/fast/cache".toList, "/config/cache".toList, true⟩,
    ⟨"tmpfs".toList, [], "/run".toList, true⟩]

/-- A path below both binds is read in the deeper one. -/
theorem resolve_follows_mounts_iff_bind :
    FollowsMounts nestedMounts "/config/cache/x".toList := by
  refine (resolve_follows_mounts_iff (by decide) ?_ ?_).mpr ?_
  · intro m hm
    simp only [nestedMounts, List.mem_cons, List.not_mem_nil, or_false] at hm
    rcases hm with rfl | rfl | rfl <;>
      exact canonical_of_components (by decide +kernel) (by decide +kernel)
  · exact canonical_of_components (by decide +kernel) (by decide +kernel)
  · intro m hdeep hhidden
    obtain ⟨hm, hcovers, -⟩ := hdeep
    simp only [nestedMounts, List.mem_cons, List.not_mem_nil, or_false] at hm
    rcases hm with rfl | rfl | rfl
    · exact absurd hhidden (by decide)
    · exact absurd hhidden (by decide)
    · exact absurd hcovers (by decide +kernel)

/-- In the tmpfs the resolver reads the bind below it. -/
theorem not_resolve_follows_mounts : ¬ FollowsMounts shadowedMounts "/config/cache/x".toList := by
  rintro ⟨-, honly⟩
  obtain ⟨m, hdeep, hvisible⟩ := honly
    ⟨"/srv/config/cache/x".toList, ⟨"bind".toList, "/srv/config".toList, "/config".toList, true⟩⟩
    (by decide +kernel)
  have hle := hdeep.2.2 ⟨"tmpfs".toList, [], "/config/cache".toList, true⟩ (by decide)
    (by decide +kernel)
  have hmem : m ∈ shadowedMounts := hdeep.1
  rw [shadowedMounts, List.mem_cons, List.mem_singleton] at hmem
  rcases hmem with rfl | rfl
  · exact absurd hle (by decide +kernel)
  · exact absurd hvisible (by decide)

end HomelabMcp.Docker
