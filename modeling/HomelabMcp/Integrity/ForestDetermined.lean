import HomelabMcp.Integrity.DiffComplete

/-!
# What the super-root hash says about the enumerations

What a reading gives at a forest path: the last entry listed there, or a
directory when the path is the source's root or lies above something listed.

- `rows_of_given`, `given_of_row`: the rows of the subtrees are those given.
- `superRoot_eq_iff`: two forests of running sources have the same super-root
  hash exactly when their readings give the same.
-/

namespace HomelabMcp.Integrity

open SlashPath SortKey Text

/-- A path of the forest, what stands there, and for a readable file the payload
of its leaf. -/
structure Given where
  path : Str
  kind : EntryKind
  payload : Option Bytes
  deriving DecidableEq

/-- The payload of a file's leaf: its time at L1, the digest of its content
elsewhere; none for a file whose content was not hashed (tree.ts:103). -/
def leafPayload (level : Level) (mtime : Option Int) (contentHash : Option Str) : Option Bytes :=
  match level with
  | .l1 => some (mtimePayload (mtime.getD 0))
  | _ => contentHash.map contentBuffer

def payloadOf (level : Level) (kind : EntryKind) (mtime : Option Int) (contentHash : Option Str) :
    Option Bytes :=
  match kind with
  | .dir => none
  | .file => leafPayload level mtime contentHash

/-- The last entry listed at a forest path; a later listing replaces an earlier one. -/
def lastListed (src : SubtreeSource) (enumerated : List EnumeratedEntry) (path : Str) :
    Option EnumeratedEntry :=
  enumerated.foldl
    (fun found e => if toForestPath src.pathPrefix e.nodePath = path then some e else found) none

/-- An entry that the enumeration lists, as it stands in the forest. -/
def Lists (level : Level) (r : Reading) (x : Given) : Prop :=
  ∃ enumerated hashes, r.live = some (enumerated, hashes) ∧ ∃ e ∈ enumerated,
    x = ⟨toForestPath r.source.pathPrefix e.nodePath, e.kind,
      payloadOf level e.kind e.mtime
        (contentHash r.source level hashes (toForestPath r.source.pathPrefix e.nodePath))⟩

/-- What a reading gives: at a listed path what is listed there last, and a
directory at the source's root and wherever something is listed further down. -/
def Gives (level : Level) (r : Reading) (x : Given) : Prop :=
  ∃ enumerated hashes, r.live = some (enumerated, hashes) ∧
    Below r.source.pathPrefix x.path ∧
    (x.path = r.source.pathPrefix ∨
      ∃ e ∈ enumerated, Below x.path (toForestPath r.source.pathPrefix e.nodePath)) ∧
    x.kind = ((lastListed r.source enumerated x.path).map (·.kind)).getD .dir ∧
    x.payload = payloadOf level x.kind ((lastListed r.source enumerated x.path).bind (·.mtime))
      (contentHash r.source level hashes x.path)

/-! ## Synthesized entries -/

theorem lastListed_concat (src : SubtreeSource) (seen : List EnumeratedEntry) (e : EnumeratedEntry)
    (path : Str) : lastListed src (seen ++ [e]) path =
      if toForestPath src.pathPrefix e.nodePath = path then some e
      else lastListed src seen path := by
  unfold lastListed
  rw [List.foldl_append]
  rfl

theorem lastListed_eq_none_iff {src : SubtreeSource} {enumerated : List EnumeratedEntry}
    {path : Str} : lastListed src enumerated path = none ↔
      ∀ e ∈ enumerated, toForestPath src.pathPrefix e.nodePath ≠ path := by
  induction enumerated using List.reverseRecOn with
  | nil => simp [lastListed]
  | append_singleton seen e ih =>
    rw [lastListed_concat]
    by_cases h : toForestPath src.pathPrefix e.nodePath = path
    · simp [h]
    · simp [h, ih, or_imp, forall_and]

/-- The map of the synthesis loop holds at each listed path what was listed there
last, and directories elsewhere. -/
structure Listing (src : SubtreeSource) (seen : List EnumeratedEntry) (byPath : List RawEntry) :
    Prop where
  listed : ∀ s ∈ seen, toForestPath src.pathPrefix s.nodePath ∈ byPath.map (·.path)
  kind : ∀ d ∈ byPath, d.kind = ((lastListed src seen d.path).map (·.kind)).getD .dir
  mtime : ∀ d ∈ byPath, d.mtime = (lastListed src seen d.path).bind (·.mtime)

theorem Listing.step {src : SubtreeSource} {seen : List EnumeratedEntry} {byPath : List RawEntry}
    (h : Listing src seen byPath) (hnd : (byPath.map (·.path)).Nodup) (e : EnumeratedEntry) :
    Listing src (seen ++ [e]) (addEnumerated src byPath e) := by
  let entry := enumeratedEntry src e
  let listed := KeyedList.upsert (fun x : RawEntry => x.path) entry byPath
  have hlisted : ∀ q, q ∈ listed.map (·.path) ↔ q = entry.path ∨ q ∈ byPath.map (·.path) :=
    fun q => mem_upsert_path
  have hkeep : ∀ q : Str, q ≠ entry.path →
      lastListed src (seen ++ [e]) q = lastListed src seen q := by
    intro q hq
    rw [lastListed_concat]
    exact if_neg (Ne.symm hq)
  have hnew : lastListed src (seen ++ [e]) entry.path = some e := by
    rw [lastListed_concat]
    exact if_pos rfl
  have hentry : entry ∈ listed := by
    have hlookup : KeyedList.lookup (fun x : RawEntry => x.path) entry.path listed = some entry := by
      rw [KeyedList.lookup_upsert, if_pos rfl]
    exact KeyedList.mem_of_lookup hlookup
  have hcases : ∀ d ∈ addEnumerated src byPath e, d = entry ∨
      (d ∈ byPath ∧ d.path ≠ entry.path) ∨
        (d.path ∉ listed.map (·.path) ∧ d.kind = .dir ∧ d.mtime = none) := by
    intro d hd
    rcases List.mem_append.mp hd with hd | hd
    · by_cases hkey : d.path = entry.path
      · exact Or.inl (List.inj_on_of_nodup_map (KeyedList.nodup_upsert hnd) hd hentry hkey)
      · exact Or.inr (Or.inl ⟨(KeyedList.mem_upsert hd).resolve_left fun h => hkey (h ▸ rfl), hkey⟩)
    · obtain ⟨q, -, rfl⟩ := List.mem_map.mp hd
      refine Or.inr (Or.inr ⟨?_, rfl, rfl⟩)
      exact of_decide_eq_false (mem_climb q.2).2.1
  have hgap : ∀ q, q ∉ listed.map (·.path) → lastListed src (seen ++ [e]) q = none := by
    intro q hq
    have hne : q ≠ entry.path := fun h => hq (h ▸ List.mem_map_of_mem hentry)
    rw [hkeep q hne, lastListed_eq_none_iff]
    rintro s hs rfl
    exact hq (mem_upsert_path.mpr (Or.inr (h.listed s hs)))
  refine ⟨fun s hs => ?_, fun d hd => ?_, fun d hd => ?_⟩
  · rw [addEnumerated_paths]
    refine List.mem_append_left _ (mem_upsert_path.mpr ?_)
    rcases List.mem_append.mp hs with hs | hs
    · exact Or.inr (h.listed s hs)
    · exact Or.inl (by rw [List.mem_singleton.mp hs]; rfl)
  · rcases hcases d hd with rfl | ⟨hd, hne⟩ | ⟨hq, hdir, -⟩
    · rw [hnew]
      rfl
    · rw [hkeep _ hne]
      exact h.kind d hd
    · rw [hgap _ hq, hdir]
      rfl
  · rcases hcases d hd with rfl | ⟨hd, hne⟩ | ⟨hq, -, hm⟩
    · rw [hnew]
      rfl
    · rw [hkeep _ hne]
      exact h.mtime d hd
    · rw [hgap _ hq, hm]
      rfl

/-- The synthesis loop over both of its invariants. -/
theorem Listing.run {src : SubtreeSource} (enumerated : List EnumeratedEntry)
    {seen : List EnumeratedEntry} {byPath : List RawEntry} (hs : Filled src seen byPath)
    (h : Listing src seen byPath) :
    Listing src (seen ++ enumerated) (enumerated.foldl (addEnumerated src) byPath) := by
  induction enumerated generalizing seen byPath with
  | nil => simpa using h
  | cons e enumerated ih =>
    have := ih (hs.step e) (h.step hs.nodup e)
    rwa [List.append_assoc, List.singleton_append] at this

theorem synthesizeEntries_listing (src : SubtreeSource) (enumerated : List EnumeratedEntry) :
    Listing src enumerated (synthesizeEntries src enumerated) := by
  have hroot : Listing src []
      [gapEntry src.pathPrefix src.pathPrefix_rooted src.pathPrefix_ne_nil] := by
    refine ⟨by simp, fun d hd => ?_, fun d hd => ?_⟩
    · rw [List.mem_singleton.mp hd]
      rfl
    · rw [List.mem_singleton.mp hd]
      rfl
  have := hroot.run enumerated (filled_root src)
  rwa [List.nil_append] at this

def givenOf (level : Level) (src : SubtreeSource) (hashes : List (Str × Str)) (e : RawEntry) :
    Given :=
  ⟨e.path, e.kind, payloadOf level e.kind e.mtime (contentHash src level hashes e.path)⟩

/-- A reading gives its synthesized entries. -/
theorem gives_iff {level : Level} {r : Reading} {enumerated : List EnumeratedEntry}
    {hashes : List (Str × Str)} (hlive : r.live = some (enumerated, hashes)) {x : Given} :
    Gives level r x ↔ ∃ e ∈ synthesizeEntries r.source enumerated,
      givenOf level r.source hashes e = x := by
  have hs := synthesizeEntries_filled r.source enumerated
  have hl := synthesizeEntries_listing r.source enumerated
  constructor
  · rintro ⟨en, hh, heq, hbelow, hplace, hkind, hpayload⟩
    obtain ⟨rfl, rfl⟩ := Prod.mk.inj (Option.some.inj (hlive.symm.trans heq))
    have hmem : x.path ∈ (synthesizeEntries r.source enumerated).map (·.path) := by
      rcases hplace with hroot | ⟨e, he, hb⟩
      · exact hroot ▸ hs.hasRoot
      · exact hs.closed.mem_of_below (hl.listed e he) hb hbelow r.source.pathPrefix_ne_nil
    obtain ⟨d, hd, hdp⟩ := List.mem_map.mp hmem
    refine ⟨d, hd, ?_⟩
    have hdk : d.kind = x.kind := by rw [hl.kind d hd, hdp, hkind]
    unfold givenOf
    rw [hdk, hl.mtime d hd, hdp, ← hpayload]
  · rintro ⟨e, he, rfl⟩
    refine ⟨enumerated, hashes, hlive, hs.below e he, (hs.origin e he).1, hl.kind e he, ?_⟩
    exact congrArg (payloadOf level e.kind · _) (hl.mtime e he)

/-! ## Rows and what is given -/

section

variable {E : Env} {level : Level} {frozenBaseline : Str → List StoredNode}
  {readings : List Reading}

/-- Every source was read. -/
structure AllLive (readings : List Reading) : Prop where
  distinct : (readings.map (·.source)).Nodup
  sound : ∀ r ∈ readings, r.Sound
  live : ∀ r ∈ readings, r.live ≠ none

theorem AllLive.read (h : AllLive readings) {r : Reading} (hr : r ∈ readings) :
    ∃ enumerated hashes, r.live = some (enumerated, hashes) := by
  obtain ⟨⟨enumerated, hashes⟩, hlive⟩ := Option.ne_none_iff_exists'.mp (h.live r hr)
  exact ⟨enumerated, hashes, hlive⟩

theorem AllLive.subtrees (h : AllLive readings) :
    Subtrees E.sha256 (readings.flatMap (subtreeOf E level frozenBaseline)) := by
  refine subtrees_of_readings h.distinct fun r hr => ?_
  obtain ⟨enumerated, hashes, hlive⟩ := h.read hr
  exact (h.sound r hr).subtree_merkle hlive

theorem AllLive.merkle (h : AllLive readings) :
    MerkleTree E.sha256 SUPER_ROOT (assembleForest E level frozenBaseline readings) :=
  forest_merkle h.subtrees

variable (sha256 : Bytes → Bytes) in
/-- The hash of what is given, with the children that were folded into it. -/
def givenHash (x : Given) (refs : List ChildRef) : Bytes :=
  match x.kind with
  | .dir => foldNode sha256 refs
  | .file => (x.payload.map (foldLeaf sha256)).getD (unreadableHash sha256)

theorem entryHash_given {sha256 : Bytes → Bytes} (src : SubtreeSource)
    (hashes : List (Str × Str)) {e : RawEntry} (he : e.state = .present) (refs : List ChildRef) :
    entryHash sha256 level (contentHash src level hashes) e refs =
      givenHash sha256 (givenOf level src hashes e) refs := by
  unfold entryHash givenHash givenOf
  rw [if_neg (by rw [he]; decide)]
  cases e.kind with
  | dir =>
    dsimp only
    split
    · rename_i h
      rw [h]
      rfl
    · rfl
  | file =>
    unfold fileHash payloadOf leafPayload
    cases level with
    | l1 => rfl
    | l2 => dsimp only; cases contentHash src .l2 hashes e.path <;> rfl
    | l3 => dsimp only; cases contentHash src .l3 hashes e.path <;> rfl

theorem mem_assembleForest {n : StoredNode} :
    n ∈ assembleForest E level frozenBaseline readings ↔
      n ∈ readings.flatMap (subtreeOf E level frozenBaseline) ∨
        n ∈ foldForestRoots E.sha256 (readings.flatMap (subtreeOf E level frozenBaseline)) :=
  List.mem_append

variable (E frozenBaseline) in
/-- What a reading gives has a row, with the hash of what is given. -/
theorem row_of_given (h : AllLive readings) (hlevel : level ≠ .l2) {r : Reading}
    (hr : r ∈ readings) {x : Given} (hx : Gives level r x) :
    ∃ n ∈ readings.flatMap (subtreeOf E level frozenBaseline), n.path = x.path ∧
      ∃ refs, n.hash = hashHex (givenHash E.sha256 x refs) ∧
        (kids (assembleForest E level frozenBaseline readings) n.path = [] → refs = []) := by
  obtain ⟨enumerated, hashes, hlive⟩ := h.read hr
  obtain ⟨e, he, rfl⟩ := (gives_iff hlive).mp hx
  have hc := (h.sound r hr).connected hlive
  obtain ⟨-, -, hin⟩ := rowAt_assembleSubtree E.sha256 level (contentHash r.source level hashes)
    (isConfigFile E.cfg r.source) hc.toBranching
  have hmember : IsMember level r.source.pathPrefix (isConfigFile E.cfg r.source)
      (synthesizeEntries r.source enumerated) e.path := by
    cases level with
    | l2 => exact absurd rfl hlevel
    | l1 => exact ⟨e, he, rfl⟩
    | l3 => exact ⟨e, he, rfl⟩
  obtain ⟨refs, hperm, hrow⟩ := hin e he hmember
  have hsub : subtreeOf E level frozenBaseline r = assembleSubtree E.sha256 level
      (contentHash r.source level hashes) r.source.pathPrefix (isConfigFile E.cfg r.source)
      (synthesizeEntries r.source enumerated) := by
    unfold subtreeOf
    rw [hlive]
  rw [← hsub] at hrow hperm
  have hmem := List.mem_flatMap.mpr ⟨r, hr, mem_of_rowAt hrow⟩
  refine ⟨_, hmem, rfl, refs, ?_, fun hkids => ?_⟩
  · exact congrArg hashHex (entryHash_given r.source hashes (hc.present e he) refs)
  · -- the subtree's children are among the forest's
    rw [kidRefs, show kids (subtreeOf E level frozenBaseline r) e.path = [] from ?_] at hperm
    · exact List.perm_nil.mp hperm
    · rw [List.eq_nil_iff_forall_not_mem]
      intro m hm
      obtain ⟨hmt, hmp⟩ := mem_kids.mp hm
      have : m ∈ kids (assembleForest E level frozenBaseline readings) e.path :=
        mem_kids.mpr ⟨mem_assembleForest.mpr (Or.inl (List.mem_flatMap.mpr ⟨r, hr, hmt⟩)), hmp⟩
      rw [show kids _ e.path = [] from hkids] at this
      cases this

/-- A row of a subtree is given. -/
theorem given_of_row (h : AllLive readings) {n : StoredNode}
    (hn : n ∈ readings.flatMap (subtreeOf E level frozenBaseline)) :
    ∃ r ∈ readings, ∃ x, Gives level r x ∧ x.path = n.path := by
  obtain ⟨r, hr, hn⟩ := List.mem_flatMap.mp hn
  obtain ⟨enumerated, hashes, hlive⟩ := h.read hr
  have hc := (h.sound r hr).connected hlive
  obtain ⟨-, hout, -⟩ := rowAt_assembleSubtree E.sha256 level (contentHash r.source level hashes)
    (isConfigFile E.cfg r.source) hc.toBranching
  unfold subtreeOf at hn
  rw [hlive] at hn
  have hmember : IsMember level r.source.pathPrefix (isConfigFile E.cfg r.source)
      (synthesizeEntries r.source enumerated) n.path := by
    by_contra hnot
    exact rowAt_eq_none_iff.mp (hout n.path hnot) n hn rfl
  obtain ⟨e, he, hep⟩ := hmember.entry hc.toBranching
  exact ⟨r, hr, _, (gives_iff hlive).mpr ⟨e, he, rfl⟩, hep⟩

/-! ## The roots -/

theorem ForestPath.parent_below (p : ForestPath) : Below p.parent.1 p.1 := by
  have := Below.join_self (a := SlashPath.parent p.1) (slash_notMem_leaf p.1)
  rwa [join_parent_leaf p.2.head] at this

theorem below_of_mem_climbToRoot {seen : ForestPath → Bool} {fuel : Nat} {p q : ForestPath}
    (h : q ∈ climbToRoot seen fuel p) : Below q.1 p.1 := by
  induction fuel generalizing p with
  | zero => cases h
  | succ fuel ih =>
    unfold climbToRoot at h
    split at h
    · cases h
    · rcases List.mem_cons.mp h with rfl | h
      · exact Below.refl _
      · split at h
        · cases h
        · exact (ih h).trans p.parent_below

/-- A synthesized ancestor has a row of some subtree below it. -/
theorem row_below_ancestor {nodes : List StoredNode} {p : ForestPath}
    (h : p ∈ forestAncestors nodes) : ∃ n ∈ nodes, Below p.1 n.path := by
  have hrun : ∀ (ns : List StoredNode) (anc : List ForestPath), (∀ n ∈ ns, n ∈ nodes) →
      (∀ q ∈ anc, ∃ n ∈ nodes, Below q.1 n.path) →
        ∀ q ∈ ns.foldl (addAncestors nodes) anc, ∃ n ∈ nodes, Below q.1 n.path := by
    intro ns
    induction ns with
    | nil => exact fun anc _ hanc => hanc
    | cons n ns ih =>
      intro anc hns hanc
      refine ih _ (fun m hm => hns m (List.mem_cons_of_mem n hm)) fun q hq => ?_
      unfold addAncestors at hq
      split at hq
      · exact hanc q hq
      · rcases List.mem_append.mp hq with hq | hq
        · exact hanc q hq
        · have hplace : Below n.place.parent.1 n.path := n.place.parent_below
          exact ⟨n, hns n List.mem_cons_self, (below_of_mem_climbToRoot hq).trans hplace⟩
  exact hrun nodes [] (fun _ hn => hn) (by simp) p h

/-- The rows above the subtrees. -/
theorem foldForestRoots_row {sha256 : Bytes → Bytes} {nodes : List StoredNode}
    (hs : Subtrees sha256 nodes) {n : StoredNode} (hn : n ∈ foldForestRoots sha256 nodes) :
    (n.path = SUPER_ROOT ∨ n.path = pctGroup) ∧ (∃ m ∈ nodes, Below n.path m.path) ∧
      (kids (nodes ++ foldForestRoots sha256 nodes) n.path = [] →
        n.hash = hashHex (emptyDirHash sha256)) := by
  obtain ⟨htops, -⟩ := forestAncestors_tops hs
  obtain ⟨refs, hrows, hperm⟩ := foldForestRoots_solution hs
  obtain ⟨p, hp, rfl⟩ := List.mem_map.mp (hrows ▸ hn)
  have hanc : p ∈ forestAncestors nodes := (byLength_perm _).mem_iff.mp hp
  refine ⟨(htops.top p hanc).imp (fun h => by rw [h]; rfl) fun h => by rw [h]; rfl,
    row_below_ancestor hanc, fun hkids => ?_⟩
  have hrefs : refs p = [] := by
    have := hperm p
    rw [kidRefs, show kids _ p.1 = [] from hkids] at this
    exact List.perm_nil.mp this
  exact congrArg hashHex (if_pos hrefs)

theorem hashAt_eq_some_iff {t : List StoredNode} (hnd : (t.map (·.path)).Nodup) {p h : Str} :
    hashAt t p = some h ↔ ∃ n ∈ t, n.path = p ∧ n.hash = h := by
  unfold hashAt
  rw [Option.map_eq_some_iff]
  simp only [rowAt_eq_some_iff hnd, and_assoc]

theorem hashAt_ne_none_iff {t : List StoredNode} {p : Str} :
    hashAt t p ≠ none ↔ ∃ n ∈ t, n.path = p := by
  rw [hashAt, ne_eq, Option.map_eq_none_iff, rowAt_eq_none_iff]
  simp

/-- Subtrees with the same hashes get roots with the same hashes. -/
theorem forest_hashAt_congr {sha256 : Bytes → Bytes} {nodes nodes' : List StoredNode}
    (hs : Subtrees sha256 nodes) (hs' : Subtrees sha256 nodes')
    (h : ∀ p, hashAt nodes p = hashAt nodes' p) (p : Str) :
    hashAt (nodes ++ foldForestRoots sha256 nodes) p =
      hashAt (nodes' ++ foldForestRoots sha256 nodes') p := by
  have hrows : ∀ {a b : List StoredNode}, Subtrees sha256 a → Subtrees sha256 b →
      (∀ p, hashAt a p = hashAt b p) → ∀ n ∈ a ++ foldForestRoots sha256 a,
        ∃ m ∈ b ++ foldForestRoots sha256 b, m.path = n.path := by
    intro a b ha hb hab n hn
    have hsub : ∀ n ∈ a, ∃ m ∈ b, m.path = n.path := fun n hn =>
      hashAt_ne_none_iff.mp (hab n.path ▸ hashAt_ne_none_iff.mpr ⟨n, hn, rfl⟩)
    rcases List.mem_append.mp hn with hn | hn
    · obtain ⟨m, hm, hmp⟩ := hsub n hn
      exact ⟨m, List.mem_append_left _ hm, hmp⟩
    · obtain ⟨-, ⟨d, hd, hb'⟩, -⟩ := foldForestRoots_row ha hn
      obtain ⟨m, hm, hmp⟩ := hsub d hd
      exact hashAt_ne_none_iff.mp ((forest_merkle hb).present_above hb'
        (hashAt_ne_none_iff.mpr ⟨m, List.mem_append_left _ hm, hmp⟩))
  refine (forest_merkle hs).hashAt_eq_of_childless (forest_merkle hs') (fun q => ?_)
    (fun n hn m hm hnm hk hk' => ?_) p
  · constructor
    · rintro ⟨n, hn, rfl⟩
      exact hrows hs hs' h n hn
    · rintro ⟨n, hn, rfl⟩
      exact hrows hs' hs (fun p => (h p).symm) n hn
  · rcases List.mem_append.mp hn with hn | hn
    · rcases List.mem_append.mp hm with hm | hm
      · have hn' := (hashAt_eq_some_iff hs.nodup).mpr ⟨n, hn, rfl, rfl⟩
        have hm' := (hashAt_eq_some_iff hs'.nodup).mpr ⟨m, hm, hnm.symm, rfl⟩
        rw [h n.path, hm'] at hn'
        exact (Option.some.inj hn').symm
      · exact absurd (hnm ▸ (foldForestRoots_row hs' hm).1) (hs.not_top hn)
    · rcases List.mem_append.mp hm with hm | hm
      · exact absurd (hnm ▸ (foldForestRoots_row hs hn).1) (hs'.not_top hm)
      · rw [(foldForestRoots_row hs hn).2.2 hk, (foldForestRoots_row hs' hm).2.2 hk']

end

/-! ## Equal hashes, equal forests -/

section

variable {E : Env} {level level' : Level} {frozen frozen' : Str → List StoredNode}
  {rs rs' : List Reading}

/-- What a reading gives at a path is one thing. -/
theorem givenHash_inj {sha256 : Bytes → Bytes} (hsha : Digest.CollisionFree sha256) {x y : Given}
    (hpath : x.path = y.path) (hx : x.kind = .dir → x.payload = none)
    (hy : y.kind = .dir → y.payload = none) {refs refs' : List ChildRef}
    (h : givenHash sha256 x refs = givenHash sha256 y refs') : x = y := by
  obtain ⟨p, k, a⟩ := x
  obtain ⟨q, k', b⟩ := y
  cases hpath
  unfold givenHash at h
  cases k with
  | dir =>
    cases k' with
    | dir =>
      have ha : a = none := hx rfl
      have hb : b = none := hy rfl
      rw [ha, hb]
    | file =>
      cases b with
      | none => exact absurd h (foldNode_ne_unreadable hsha _)
      | some b => exact absurd h (foldNode_ne_foldLeaf hsha _ _)
  | file =>
    cases k' with
    | dir =>
      cases a with
      | none => exact absurd h.symm (foldNode_ne_unreadable hsha _)
      | some a => exact absurd h.symm (foldNode_ne_foldLeaf hsha _ _)
    | file =>
      cases a with
      | none =>
        cases b with
        | none => rfl
        | some b => exact absurd h.symm (foldLeaf_ne_unreadable hsha _)
      | some a =>
        cases b with
        | none => exact absurd h (foldLeaf_ne_unreadable hsha _)
        | some b => rw [foldLeaf_injective hsha h]

theorem Gives.payload_dir {r : Reading} {x : Given} (h : Gives level r x) (hk : x.kind = .dir) :
    x.payload = none := by
  obtain ⟨_, _, _, _, _, _, hp⟩ := h
  rw [hp, hk]
  rfl

theorem Gives.not_top {r : Reading} {x : Given} (h : Gives level r x) :
    ¬ (x.path = SUPER_ROOT ∨ x.path = pctGroup) := by
  obtain ⟨_, _, _, hb, _⟩ := h
  exact fun ht => not_below_source ht hb

/-- A forest that gives the same has a row wherever the other one has. -/
theorem rows_subset (h : AllLive rs) (h' : AllLive rs') (hlevel' : level' ≠ .l2)
    (hgives : ∀ x, (∃ r ∈ rs, Gives level r x) → ∃ r ∈ rs', Gives level' r x) {n : StoredNode}
    (hn : n ∈ assembleForest E level frozen rs) :
    ∃ m ∈ assembleForest E level' frozen' rs', m.path = n.path := by
  have hsub : ∀ n ∈ rs.flatMap (subtreeOf E level frozen),
      ∃ m ∈ assembleForest E level' frozen' rs', m.path = n.path := by
    intro n hn
    obtain ⟨r, hr, x, hx, hxp⟩ := given_of_row h hn
    obtain ⟨r', hr', hx'⟩ := hgives x ⟨r, hr, hx⟩
    obtain ⟨m, hm, hmp, -⟩ := row_of_given E frozen' h' hlevel' hr' hx'
    exact ⟨m, mem_assembleForest.mpr (Or.inl hm), hmp.trans hxp⟩
  rcases mem_assembleForest.mp hn with hn | hn
  · exact hsub n hn
  · obtain ⟨-, ⟨d, hd, hb⟩, -⟩ := foldForestRoots_row h.subtrees hn
    obtain ⟨m, hm, hmp⟩ := hsub d hd
    have hsome : hashAt (assembleForest E level' frozen' rs') d.path ≠ none := fun hnone =>
      rowAt_eq_none_iff.mp (Option.map_eq_none_iff.mp hnone) m hm hmp
    have hrow := h'.merkle.present_above hb hsome
    obtain ⟨g, hg⟩ := Option.ne_none_iff_exists'.mp hrow
    obtain ⟨k, hk, -⟩ := Option.map_eq_some_iff.mp hg
    exact ⟨k, mem_of_rowAt hk, path_of_rowAt hk⟩

/-- A row of the forest, as a given one or as one above the sources. -/
theorem row_cases (h : AllLive rs) {n : StoredNode} (hn : n ∈ assembleForest E level frozen rs) :
    (∃ r ∈ rs, ∃ x, Gives level r x ∧ x.path = n.path) ∨
      ((n.path = SUPER_ROOT ∨ n.path = pctGroup) ∧
        (kids (assembleForest E level frozen rs) n.path = [] →
          n.hash = hashHex (emptyDirHash E.sha256))) := by
  rcases mem_assembleForest.mp hn with hn | hn
  · exact Or.inl (given_of_row h hn)
  · obtain ⟨htop, -, hhash⟩ := foldForestRoots_row h.subtrees hn
    exact Or.inr ⟨htop, hhash⟩

/-- The row at a given path is the given one. -/
theorem hash_of_given (h : AllLive rs) (hlevel : level ≠ .l2) {r : Reading} (hr : r ∈ rs)
    {x : Given} (hx : Gives level r x) {n : StoredNode}
    (hn : n ∈ assembleForest E level frozen rs) (hnp : n.path = x.path) :
    ∃ refs, n.hash = hashHex (givenHash E.sha256 x refs) ∧
      (kids (assembleForest E level frozen rs) n.path = [] → refs = []) := by
  obtain ⟨m, hm, hmp, h'⟩ := row_of_given E frozen h hlevel hr hx
  have : m = n := List.inj_on_of_nodup_map h.merkle.nodup (mem_assembleForest.mpr (Or.inl hm)) hn
    (hmp.trans hnp.symm)
  exact this ▸ h'

/-- Readings that give the same make the same super-root hash. -/
theorem superRoot_eq_of_gives (h : AllLive rs) (h' : AllLive rs') (hlevel : level ≠ .l2)
    (hlevel' : level' ≠ .l2)
    (hgives : ∀ x, (∃ r ∈ rs, Gives level r x) ↔ ∃ r ∈ rs', Gives level' r x) (p : Str) :
    hashAt (assembleForest E level frozen rs) p = hashAt (assembleForest E level' frozen' rs') p := by
  refine h.merkle.hashAt_eq_of_childless h'.merkle (fun q => ?_) (fun n hn m hm hnm hk hk' => ?_) p
  · constructor
    · rintro ⟨n, hn, rfl⟩
      exact rows_subset h h' hlevel' (fun x => (hgives x).mp) hn
    · rintro ⟨n, hn, rfl⟩
      exact rows_subset h' h hlevel (fun x => (hgives x).mpr) hn
  · rcases row_cases h hn with ⟨r, hr, x, hx, hxp⟩ | ⟨htop, hhash⟩
    · obtain ⟨r', hr', hx'⟩ := (hgives x).mp ⟨r, hr, hx⟩
      obtain ⟨refs, hh, hrefs⟩ := hash_of_given h hlevel hr hx hn hxp.symm
      obtain ⟨refs', hh', hrefs'⟩ := hash_of_given h' hlevel' hr' hx' hm (hnm ▸ hxp.symm)
      rw [hh, hh', hrefs hk, hrefs' hk']
    · rcases row_cases h' hm with ⟨r', hr', x, hx, hxp⟩ | ⟨-, hhash'⟩
      · exact absurd (hxp.trans hnm.symm ▸ htop) hx.not_top
      · rw [hhash hk, hhash' hk']

/-- Forests with one super-root hash were given the same. -/
theorem gives_of_superRoot_eq (hsha : Digest.CollisionFree E.sha256) (h : AllLive rs)
    (h' : AllLive rs') (hlevel : level ≠ .l2) (hlevel' : level' ≠ .l2)
    (hroot : hashAt (assembleForest E level frozen rs) SUPER_ROOT =
      hashAt (assembleForest E level' frozen' rs') SUPER_ROOT) {x : Given}
    (hx : ∃ r ∈ rs, Gives level r x) : ∃ r ∈ rs', Gives level' r x := by
  obtain ⟨r, hr, hx⟩ := hx
  obtain ⟨n, hn, hnp, -⟩ := row_of_given E frozen h hlevel hr hx
  have hn := mem_assembleForest.mpr (Or.inl hn)
  have hagree := h.merkle.hash_agree_below hsha h'.merkle hroot (below_root n.rooted.head)
  have hrow : rowAt (assembleForest E level frozen rs) n.path = some n :=
    (rowAt_eq_some_iff h.merkle.nodup).mpr ⟨hn, rfl⟩
  rw [hashAt, hrow] at hagree
  obtain ⟨m, hm, hhash⟩ := Option.map_eq_some_iff.mp hagree.symm
  have hmp := path_of_rowAt hm
  rcases row_cases h' (mem_of_rowAt hm) with ⟨r', hr', y, hy, hyp⟩ | ⟨htop, -⟩
  · refine ⟨r', hr', ?_⟩
    obtain ⟨refs, hh, -⟩ := hash_of_given h hlevel hr hx hn hnp
    obtain ⟨refs', hh', -⟩ := hash_of_given h' hlevel' hr' hy (mem_of_rowAt hm) hyp.symm
    have hpath : x.path = y.path := by rw [← hnp, hyp, hmp]
    have heq := hashHex_injective (hh.symm.trans (hhash.symm.trans hh'))
    rwa [givenHash_inj hsha hpath hx.payload_dir hy.payload_dir heq]
  · exact absurd (hmp.trans hnp ▸ htop) hx.not_top

end

/-- The super-root hash says what the sources gave, and nothing more. -/
theorem superRoot_eq_iff {E : Env} (hsha : Digest.CollisionFree E.sha256) {level level' : Level}
    (hlevel : level ≠ .l2) (hlevel' : level' ≠ .l2) (frozen frozen' : Str → List StoredNode)
    {rs rs' : List Reading} (h : AllLive rs) (h' : AllLive rs') :
    hashAt (assembleForest E level frozen rs) SUPER_ROOT =
        hashAt (assembleForest E level' frozen' rs') SUPER_ROOT ↔
      ∀ x, (∃ r ∈ rs, Gives level r x) ↔ ∃ r ∈ rs', Gives level' r x := by
  constructor
  · intro hroot x
    exact ⟨gives_of_superRoot_eq hsha h h' hlevel hlevel' hroot,
      gives_of_superRoot_eq hsha h' h hlevel' hlevel hroot.symm⟩
  · intro hgives
    exact superRoot_eq_of_gives h h' hlevel hlevel' hgives SUPER_ROOT

/-- The message of the day, with its directory listed and without. -/
def etcListed : Reading := .ofFiles .host [.dir "/etc", .file "/etc/motd" "1.0" 'a']

def etcUnlisted : Reading := .ofFiles .host [.file "/etc/motd" "1.0" 'a']

theorem allLive_etcListed : AllLive [etcListed] :=
  ⟨by simp, by simpa using .ofFiles (.of_listing (by decide +kernel) (by decide +kernel)),
    by simp [etcListed, Reading.ofFiles]⟩

theorem allLive_etcUnlisted : AllLive [etcUnlisted] :=
  ⟨by simp, by simpa using .ofFiles (.of_listing (by decide +kernel) (by decide +kernel)),
    by simp [etcUnlisted, Reading.ofFiles]⟩

theorem superRoot_eq_iff_etc :
    hashAt (assembleForest .sample .l1 (fun _ => []) [etcListed]) SUPER_ROOT =
        hashAt (assembleForest .sample .l1 (fun _ => []) [etcUnlisted]) SUPER_ROOT ↔
      ∀ x, (∃ r ∈ [etcListed], Gives .l1 r x) ↔ ∃ r ∈ [etcUnlisted], Gives .l1 r x :=
  superRoot_eq_iff Digest.lengthPrefixed_collisionFree (by decide) (by decide) _ _
    allLive_etcListed allLive_etcUnlisted

/-- The listed entries alone are not determined: a directory that is not listed is
filled in. -/
theorem superRoot_not_iff_lists :
    ¬ ∀ rs rs' : List Reading, AllLive rs → AllLive rs' →
      (hashAt (assembleForest .sample .l1 (fun _ => []) rs) SUPER_ROOT =
          hashAt (assembleForest .sample .l1 (fun _ => []) rs') SUPER_ROOT ↔
        ∀ x, (∃ r ∈ rs, Lists .l1 r x) ↔ ∃ r ∈ rs', Lists .l1 r x) := by
  intro h
  have hsame : hashAt (assembleForest .sample .l1 (fun _ => []) [etcListed]) SUPER_ROOT =
      hashAt (assembleForest .sample .l1 (fun _ => []) [etcUnlisted]) SUPER_ROOT := by
    decide +kernel
  have hlists := (h _ _ allLive_etcListed allLive_etcUnlisted).mp hsame
    ⟨"host/etc".toList, .dir, none⟩
  obtain ⟨r, hr, hx⟩ := hlists.mp ⟨etcListed, by simp, _, _, rfl, by decide +kernel⟩
  rw [List.mem_singleton.mp hr] at hx
  obtain ⟨enumerated, hashes, hlive, e, he, hx⟩ := hx
  have hpath : e.kind = .dir := (congrArg Given.kind hx).symm
  have hfiles : ∀ e ∈ parseForestEnumeration
      ([FsEntry.file "/etc/motd" "1.0" 'a'].flatMap (·.enumLine)), e.kind = .file := by
    decide +kernel
  obtain ⟨rfl, rfl⟩ := Prod.mk.inj (Option.some.inj hlive)
  rw [hfiles e he] at hpath
  cases hpath

end HomelabMcp.Integrity
