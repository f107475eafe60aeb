import HomelabMcp.Integrity.ForestDetermined
import HomelabMcp.Integrity.Report

/-!
# Guests that cannot be reached (integrityEngine.ts:147, forest.ts:90)

A baseline was computed while every guest ran; later some have stopped, and no
file that can still be read has changed. A stopped guest's rows are those of the
baseline, so a verification has nothing to report, unless `pct list` itself
fails: with another exit code than 0 no guest is looked for at all, and without an
answer, or without one to a status probe, there is no report.

- `readLive_later`: what a source that still runs answers is what it answered.
- `pass_agrees`: a later pass has the hashes of the baseline.
- `afterPass_eq_some_iff`: a later pass goes through when what it asks is answered.
- `verify_clean_iff`: the first diff decides whether a verification reports anything.
- `quiet_iff`: when a verification reports nothing.
-/

namespace HomelabMcp.Integrity

open SlashPath SortKey Text Effect

/-! ## Two states of a node -/

/-- A source was found running at some time. -/
def World.Runs (w : World) (src : SubtreeSource) : Prop :=
  ∃ k k', available w src k = .ok true k'

/-- `pct list` answers at this call, and it does not fail. -/
def World.ListsAt (w : World) (k : Nat) : Prop :=
  ∃ res, w.exec k pctListCommand = .ok res ∧ res.exitCode = some 0

/-- The guests that `pct list` names at this call; none when it ends with another exit
code than 0. -/
def World.guestsAt (w : World) (k : Nat) : List Nat :=
  match w.exec k pctListCommand with
  | .ok res => if res.exitCode = some 0 then (parsePctList res.stdout).map (·.vmid) else []
  | .error _ => []

def World.guests (w : World) : List Nat :=
  w.guestsAt 0

/-- A node whose guests all run. -/
structure World.AllUp (w : World) : Prop where
  lists : ∀ k, w.ListsAt k
  steady : ∀ k, (w.guestsAt k).Perm w.guests
  up : ∀ v ∈ w.guests, ∀ k b k', available w (.container v) k = .ok b k' → b = true

/-- A later state of the node: where it lists its guests they are the same, and what
still runs has the same files. -/
structure World.Later (w w' : World) (cfg : Config) : Prop where
  guests : ∀ k, w'.ListsAt k → (w'.guestsAt k).Perm w.guests
  listings : ∀ src, w'.Runs src → ∀ k k',
    w'.exec k' (enumCommand cfg src) = w.exec k (enumCommand cfg src)
  digests : ∀ src, w'.Runs src → ∀ paths cmd, buildSha256Command paths src.vmid = some cmd →
    ∀ k k', w'.exec k' cmd = w.exec k cmd

theorem World.runs_host (w : World) : w.Runs .host :=
  ⟨0, 0, rfl⟩

/-! ## The calls of a pass -/

/-- What a source lists. -/
def World.listing (w : World) (cfg : Config) (src : SubtreeSource) : List EnumeratedEntry :=
  (returned (enumerate w cfg src) 0).getD []

/-- The calls for the digests of a source: one, if any file is wanted. -/
def hashCalls (cfg : Config) (level : Level) (src : SubtreeSource)
    (enumerated : List EnumeratedEntry) : Nat :=
  if level = .l1 ∨ wantFiles cfg level src (synthesizeEntries src enumerated) = [] then 0 else 1

/-- The calls for reading a source that runs. -/
def World.readCalls (w : World) (cfg : Config) (level : Level) (src : SubtreeSource) : Nat :=
  1 + hashCalls cfg level src (w.listing cfg src)

/-- The call after those for the listed guests, if every status probe is answered. -/
def World.afterGuests (w : World) (cfg : Config) (level : Level) : List Nat → Nat → Option Nat
  | [], k => some k
  | v :: vs, k =>
    match available w (.container v) k with
    | .ok true j => w.afterGuests cfg level vs (j + w.readCalls cfg level (.container v))
    | .ok false j => w.afterGuests cfg level vs j
    | .error _ _ => none

/-- The call after a pass that begins with call `k`, if its `pct list` and its status
probes are answered. -/
def World.afterPass (w : World) (cfg : Config) (level : Level) (k : Nat) : Option Nat :=
  match w.exec k pctListCommand with
  | .ok _ => w.afterGuests cfg level (w.guestsAt k) (k + 1 + w.readCalls cfg level .host)
  | .error _ => none

/-- The level of a verification's first diff. -/
def VerifyLevel.first : VerifyLevel → Level
  | .only l => l
  | .smart => .l1

/-- The call with which the pass of the first diff begins, in a verification from call `k`
on: L2 and L3 alone are preceded by a pass at L1, whose diff is dropped. -/
def World.firstCall (w : World) (cfg : Config) : VerifyLevel → Nat → Option Nat
  | .only .l1, k => some k
  | .only _, k => w.afterPass cfg .l1 k
  | .smart, k => some k

/-- Up to the first diff each `pct list` and each status probe is answered, and the
pass of that diff misses no guest of the baseline for an exit code of `pct list`. -/
def World.HearsGuests (w w' : World) (cfg : Config) (level : VerifyLevel) (k : Nat) : Prop :=
  ∃ j, w'.firstCall cfg level k = some j ∧ (w'.afterPass cfg level.first j).isSome ∧
    (w.guests = [] ∨ w'.ListsAt j)

/-! ## What is read again -/

section

variable {w w' : World} {cfg : Config} {src : SubtreeSource} {level : Level}

theorem run_same {cmd : Str} (h : ∀ k k', w'.exec k' cmd = w.exec k cmd) {res : ExecResult}
    {k k' : Nat} (hr : w.run cmd k = .ok res k') (j : Nat) : w'.run cmd j = .ok res (j + 1) := by
  have hres := run_eq_ok hr
  unfold World.run
  rw [h k j, hres]

theorem enumerate_later (hl : w.Later w' cfg) (hrun : w'.Runs src) {k k' : Nat}
    {entries : List EnumeratedEntry} (h : enumerate w cfg src k = .ok entries k') (j : Nat) :
    enumerate w' cfg src j = .ok entries (j + 1) := by
  unfold enumerate at h ⊢
  obtain ⟨res, i, hres, h⟩ := bind_eq_ok h
  rw [bind_of_ok (run_same (hl.listings src hrun) hres j)]
  by_cases hfailed : res.exitCode ≠ some 0 ∧ trim res.stdout = []
  · rw [if_pos hfailed] at h
    cases h
  · rw [if_neg hfailed] at h ⊢
    obtain ⟨rfl, -⟩ := pure_eq_ok h
    rfl

theorem World.listing_eq {entries : List EnumeratedEntry} {j : Nat}
    (h : enumerate w cfg src 0 = .ok entries j) : w.listing cfg src = entries := by
  unfold World.listing returned
  rw [h]
  rfl

theorem readHashes_later (hl : w.Later w' cfg) (hrun : w'.Runs src)
    {enumerated : List EnumeratedEntry} {k k' : Nat} {hashes : List (Str × Str)}
    (h : readHashes w cfg level src enumerated k = .ok hashes k') (j : Nat) :
    readHashes w' cfg level src enumerated j =
      .ok hashes (j + hashCalls cfg level src enumerated) := by
  unfold readHashes at h ⊢
  unfold hashCalls
  by_cases hl1 : level = .l1
  · rw [if_pos hl1] at h ⊢
    obtain ⟨rfl, -⟩ := pure_eq_ok h
    rw [if_pos (Or.inl hl1)]
    rfl
  · rw [if_neg hl1] at h ⊢
    unfold hashViaSha256 at h ⊢
    by_cases hnone : wantFiles cfg level src (synthesizeEntries src enumerated) = []
    · have hcmd : buildSha256Command (wantFiles cfg level src (synthesizeEntries src enumerated))
          src.vmid = none := if_pos hnone
      rw [hcmd] at h ⊢
      obtain ⟨rfl, -⟩ := pure_eq_ok h
      rw [if_pos (Or.inr hnone)]
      rfl
    · obtain ⟨cmd, hcmd⟩ : ∃ cmd, buildSha256Command
          (wantFiles cfg level src (synthesizeEntries src enumerated)) src.vmid = some cmd :=
        ⟨_, if_neg hnone⟩
      rw [hcmd] at h ⊢
      obtain ⟨res, i, hres, h⟩ := bind_eq_ok h
      obtain ⟨rfl, -⟩ := pure_eq_ok h
      rw [if_neg fun hor => hor.elim hl1 hnone]
      exact bind_of_ok (run_same (hl.digests src hrun _ _ hcmd) hres j)

/-- A source that still runs is read as before. -/
theorem readLive_later (hl : w.Later w' cfg) (hrun : w'.Runs src) {k k' : Nat} {r : Reading}
    (h : readLive w cfg level src k = .ok r k') (j : Nat) :
    readLive w' cfg level src j = .ok r (j + w'.readCalls cfg level src) := by
  unfold readLive at h ⊢
  obtain ⟨enumerated, i, henum, h⟩ := bind_eq_ok h
  obtain ⟨hashes, i', hhashes, h⟩ := bind_eq_ok h
  obtain ⟨rfl, -⟩ := pure_eq_ok h
  have hlisting : w'.listing cfg src = enumerated :=
    World.listing_eq (enumerate_later hl hrun henum 0)
  rw [bind_of_ok (enumerate_later hl hrun henum j),
    bind_of_ok (readHashes_later hl hrun hhashes (j + 1)), World.readCalls, hlisting,
    ← Nat.add_assoc]
  rfl

theorem readLive_eq {k k' : Nat} {r : Reading} (h : readLive w cfg level src k = .ok r k') :
    r.source = src ∧ r.live ≠ none := by
  unfold readLive at h
  obtain ⟨enumerated, i, -, h⟩ := bind_eq_ok h
  obtain ⟨hashes, i', -, h⟩ := bind_eq_ok h
  obtain ⟨rfl, -⟩ := pure_eq_ok h
  exact ⟨rfl, by simp⟩

/-- A source is read, or found not running. -/
theorem readSource_cases {k k' : Nat} {r : Reading}
    (h : readSource w cfg level src k = .ok r k') :
    (w.Runs src ∧ ∃ j, readLive w cfg level src j = .ok r k') ∨
      (r = ⟨src, none⟩ ∧ ∃ j, available w src k = .ok false j) := by
  unfold readSource at h
  obtain ⟨up, j, hup, h⟩ := bind_eq_ok h
  cases up with
  | true => exact Or.inl ⟨⟨k, j, hup⟩, j, h⟩
  | false =>
    obtain ⟨rfl, -⟩ := pure_eq_ok h
    exact Or.inr ⟨rfl, j, hup⟩

theorem mem_readSources {srcs : List SubtreeSource} {k k' : Nat} {rs : List Reading}
    (h : readSources w cfg level srcs k = .ok rs k') :
    rs.map (·.source) = srcs ∧ ∀ r ∈ rs, ∃ j j', readSource w cfg level r.source j = .ok r j' := by
  induction srcs generalizing k k' rs with
  | nil =>
    obtain ⟨rfl, -⟩ := pure_eq_ok h
    exact ⟨rfl, by simp⟩
  | cons src srcs ih =>
    unfold readSources at h
    obtain ⟨r, j, hr, h⟩ := bind_eq_ok h
    obtain ⟨rs', j', hrs, h⟩ := bind_eq_ok h
    obtain ⟨rfl, rfl⟩ := pure_eq_ok h
    obtain ⟨hmap, hall⟩ := ih hrs
    have hsrc : r.source = src := by
      rcases readSource_cases hr with ⟨-, i, hlive⟩ | ⟨hdown, -⟩
      · exact (readLive_eq hlive).1
      · rw [hdown]
    refine ⟨by rw [List.map_cons, hsrc, hmap], fun q hq => ?_⟩
    rcases List.mem_cons.mp hq with rfl | hq
    · exact ⟨k, j, hsrc ▸ hr⟩
    · exact hall q hq

end

/-! ## One pass, and a later one -/

theorem buildSources_guests {w : World} {k k' : Nat} {srcs : List SubtreeSource}
    (hb : buildSources w k = .ok srcs k') :
    srcs = .host :: (w.guestsAt k).map .container := by
  unfold buildSources at hb
  obtain ⟨res, j, hres, hb⟩ := bind_eq_ok hb
  obtain ⟨rfl, -⟩ := pure_eq_ok hb
  unfold World.guestsAt
  rw [run_eq_ok hres]
  dsimp only
  split <;> simp [List.map_map, Function.comp_def]

section

variable {E : Env} {w w' : World} {level : Level}

/-- A pass over a node whose guests all run reads every source. -/
theorem pass_readings (hw : w.DescribesTrees E.cfg) (hup : w.AllUp) {st : Store} {k k' : Nat}
    {nodes : List StoredNode} (h : computeForestNodes E w st level k = .ok nodes k') :
    ∃ rs : List Reading, AllLive rs ∧
      rs.map (·.source) = .host :: (w.guestsAt k).map .container ∧
      (∀ r ∈ rs, ∃ j j', readLive w E.cfg level r.source j = .ok r j') ∧
        nodes = assembleForest E level (st.allUnder E.under .baseline level) rs := by
  unfold computeForestNodes at h
  obtain ⟨srcs, j, hsrcs, h⟩ := bind_eq_ok h
  obtain ⟨rs, j', hrs, h⟩ := bind_eq_ok h
  obtain ⟨rfl, -⟩ := pure_eq_ok h
  obtain ⟨hmap, hread⟩ := mem_readSources hrs
  have hguests := buildSources_guests hsrcs
  have hlive : ∀ r ∈ rs, ∃ j j', readLive w E.cfg level r.source j = .ok r j' := by
    intro r hr
    obtain ⟨i, i', hsrc⟩ := hread r hr
    rcases readSource_cases hsrc with ⟨-, j, hlive⟩ | ⟨-, j, hdown⟩
    · exact ⟨j, i', hlive⟩
    · have hmem : r.source ∈ SubtreeSource.host :: (w.guestsAt k).map .container :=
        hguests ▸ hmap ▸ List.mem_map_of_mem hr
      rcases List.mem_cons.mp hmem with hhost | hguest
      · rw [hhost] at hdown
        cases (pure_eq_ok hdown).1
      · obtain ⟨v, hv, hvs⟩ := List.mem_map.mp hguest
        rw [← hvs] at hdown
        cases hup.up v ((hup.steady k).mem_iff.mp hv) _ _ _ hdown
  refine ⟨rs, ⟨?_, (readSources_sound hw hrs).2, fun r hr => ?_⟩, hmap.trans hguests, hlive, rfl⟩
  · rw [hmap]
    exact buildSources_nodup hw hsrcs
  · obtain ⟨i, i', hlive⟩ := hlive r hr
    exact (readLive_eq hlive).2

/-- A later pass finds the host, and of the guests that are listed some as before and
some stopped. -/
theorem later_readings {st : Store} {k k' : Nat} {nodes : List StoredNode}
    (h : computeForestNodes E w' st level k = .ok nodes k') :
    ∃ rs : List Reading, rs.map (·.source) = .host :: (w'.guestsAt k).map .container ∧
      (∀ r ∈ rs, r.live = none ∨
        (w'.Runs r.source ∧ ∃ j j', readLive w' E.cfg level r.source j = .ok r j')) ∧
        nodes = assembleForest E level (st.allUnder E.under .baseline level) rs := by
  unfold computeForestNodes at h
  obtain ⟨srcs, j, hsrcs, h⟩ := bind_eq_ok h
  obtain ⟨rs, j', hrs, h⟩ := bind_eq_ok h
  obtain ⟨rfl, -⟩ := pure_eq_ok h
  obtain ⟨hmap, hread⟩ := mem_readSources hrs
  refine ⟨rs, hmap.trans (buildSources_guests hsrcs), fun r hr => ?_, rfl⟩
  obtain ⟨i, i', hsrc⟩ := hread r hr
  rcases readSource_cases hsrc with ⟨hrun, j, hlive⟩ | ⟨hdown, -⟩
  · exact Or.inr ⟨hrun, j, i', hlive⟩
  · exact Or.inl (by rw [hdown])

theorem subtreeOf_live {r : Reading} (h : r.live ≠ none) (f g : Str → List StoredNode) :
    subtreeOf E level f r = subtreeOf E level g r := by
  obtain ⟨en, hen⟩ := Option.ne_none_iff_exists'.mp h
  unfold subtreeOf
  rw [hen]

/-- The frozen rows are the rows that the baseline has below the source. -/
theorem mem_freezeSubtree {t : Partition} {src : SubtreeSource}
    (hsome : ∃ n ∈ t.rows, Below src.pathPrefix n.path) {p hash : Str} :
    (∃ n ∈ freezeSubtree E.sha256 src (t.allUnder E.under src.pathPrefix),
        n.path = p ∧ n.hash = hash) ↔
      ∃ n ∈ t.rows, Below src.pathPrefix n.path ∧ n.path = p ∧ n.hash = hash := by
  have hscope : ∀ n : StoredNode, n ∈ t.allUnder E.under src.pathPrefix ↔
      n ∈ t.rows ∧ Below src.pathPrefix n.path := by
    intro n
    rw [Partition.mem_allUnder, Partition.get_eq_some_iff, E.under_source src n.rooted]
    simp
  have hne : t.allUnder E.under src.pathPrefix ≠ [] := by
    obtain ⟨n, hn, hb⟩ := hsome
    exact List.ne_nil_of_mem ((hscope n).mpr ⟨hn, hb⟩)
  unfold freezeSubtree
  rw [if_neg hne]
  constructor
  · rintro ⟨n, hn, rfl, rfl⟩
    obtain ⟨m, hm, rfl⟩ := List.mem_map.mp hn
    obtain ⟨hmt, hb⟩ := (hscope m).mp hm
    refine ⟨m, hmt, hb, ?_⟩
    split <;> exact ⟨rfl, rfl⟩
  · rintro ⟨n, hn, hb, rfl, rfl⟩
    refine ⟨_, List.mem_map_of_mem ((hscope n).mpr ⟨hn, hb⟩), ?_⟩
    split <;> exact ⟨rfl, rfl⟩

/-- The baseline of a level is what a pass over the node showed. -/
def World.Established (E : Env) (w : World) (level : Level) (st : Store) : Prop :=
  ∃ st₀ k nodes k', computeForestNodes E w st₀ level k = .ok nodes k' ∧
    st.part .baseline level = .ofNodes nodes

/-- What the baseline is made of, when every guest ran. -/
theorem World.Established.readings (hw : w.DescribesTrees E.cfg) (hup : w.AllUp) {st : Store}
    (hb : w.Established E level st) :
    ∃ (frozen : Str → List StoredNode) (guests : List Nat) (rs : List Reading), AllLive rs ∧
      guests.Perm w.guests ∧ rs.map (·.source) = .host :: guests.map .container ∧
      (∀ r ∈ rs, ∃ j j', readLive w E.cfg level r.source j = .ok r j') ∧
        (st.part .baseline level).rows = assembleForest E level frozen rs := by
  obtain ⟨st₀, k, nodes, k', hpass, hpart⟩ := hb
  obtain ⟨rs, hlive, hsrcs, hread, rfl⟩ := pass_readings hw hup hpass
  exact ⟨_, _, rs, hlive, hup.steady k, hsrcs, hread,
    by rw [hpart, Partition.ofNodes_rows hlive.merkle.nodup]⟩

/-- A row below a source belongs to the source's subtree. -/
theorem row_in_subtree {f : Str → List StoredNode} {rs : List Reading} (h : AllLive rs)
    {n : StoredNode} (hn : n ∈ assembleForest E level f rs) {src : SubtreeSource}
    (hb : Below src.pathPrefix n.path) :
    ∃ r ∈ rs, r.source = src ∧ n ∈ subtreeOf E level f r := by
  rcases mem_assembleForest.mp hn with hn | hn
  · obtain ⟨r, hr, hn⟩ := List.mem_flatMap.mp hn
    obtain ⟨enumerated, hashes, hlive⟩ := h.read hr
    have hmerkle : MerkleTree E.sha256 r.source.pathPrefix (subtreeOf E level f r) :=
      (h.sound r hr).subtree_merkle hlive
    have hbelow := hmerkle.below n hn
    exact ⟨r, hr, source_unique hbelow hb, hn⟩
  · exact absurd hb (not_below_source (foldForestRoots_row h.subtrees hn).1)

variable (E level) in
/-- The root of a source that was read has a row. -/
theorem root_row (f : Str → List StoredNode) {rs : List Reading} (h : AllLive rs) {r : Reading}
    (hr : r ∈ rs) : ∃ n ∈ subtreeOf E level f r, n.path = r.source.pathPrefix := by
  obtain ⟨enumerated, hashes, hlive⟩ := h.read hr
  have hc := (h.sound r hr).connected hlive
  obtain ⟨e, he, hep⟩ := hc.hasRoot
  obtain ⟨-, -, hin⟩ := rowAt_assembleSubtree E.sha256 level (contentHash r.source level hashes)
    (isConfigFile E.cfg r.source) hc.toBranching
  obtain ⟨refs, -, hrow⟩ := hin e he (by rw [hep]; exact IsMember.root hc.toBranching)
  refine ⟨_, ?_, (path_of_rowAt hrow).trans hep⟩
  unfold subtreeOf
  rw [hlive]
  exact mem_of_rowAt hrow

/-- What a later pass found of the sources of the baseline: a source that was read
again was read as before, and the others have the rows of the baseline. -/
theorem later_subtrees (hl : w.Later w' E.cfg) {st : Store} {f : Str → List StoredNode}
    {rs rs' : List Reading} (hlive : AllLive rs)
    (hread : ∀ r ∈ rs, ∃ j j', readLive w E.cfg level r.source j = .ok r j')
    (hrows : (st.part .baseline level).rows = assembleForest E level f rs)
    (hread' : ∀ r ∈ rs', r.live = none ∨
      (w'.Runs r.source ∧ ∃ j j', readLive w' E.cfg level r.source j = .ok r j'))
    (hsrcs : ∀ r ∈ rs', r.source ∈ rs.map (·.source)) :
    (∀ r' ∈ rs', (r'.live = none ∨ r' ∈ rs) ∧ ∃ r ∈ rs, r.source = r'.source) ∧
      ∀ r' ∈ rs', MerkleTree E.sha256 r'.source.pathPrefix
        (subtreeOf E level (st.allUnder E.under .baseline level) r') := by
  have hcases : ∀ r' ∈ rs', (r'.live = none ∨ r' ∈ rs) ∧ ∃ r ∈ rs, r.source = r'.source := by
    intro r' hr'
    obtain ⟨r, hr, hrsrc⟩ := List.mem_map.mp (hsrcs r' hr')
    refine ⟨(hread' r' hr').imp_right fun ⟨hrun, j, j', hj⟩ => ?_, r, hr, hrsrc⟩
    obtain ⟨i, i', hi⟩ := hread r hr
    have hj'' := readLive_later hl (hrsrc ▸ hrun) hi j
    rw [hrsrc, hj] at hj''
    injection hj'' with hr''
    exact hr'' ▸ hr
  refine ⟨hcases, fun r' hr' => ?_⟩
  rcases (hcases r' hr').1 with hdown | hmem
  · unfold subtreeOf
    rw [hdown]
    exact freezeSubtree_merkle (hrows ▸ hlive.merkle) r'.source
  · obtain ⟨enumerated, hashes, hlive'⟩ := hlive.read hmem
    exact (hlive.sound r' hmem).subtree_merkle hlive'

/-- A later pass has the hashes of the baseline, whichever guests it found stopped. -/
theorem pass_agrees (hw : w.DescribesTrees E.cfg) (hup : w.AllUp) (hl : w.Later w' E.cfg)
    {st : Store} (hb : w.Established E level st) {k k' : Nat}
    (hguests : (w'.guestsAt k).Perm w.guests) {nodes : List StoredNode}
    (h : computeForestNodes E w' st level k = .ok nodes k') :
    MerkleTree E.sha256 SUPER_ROOT nodes ∧
      ∀ p, hashAt nodes p = hashAt (st.part .baseline level).rows p := by
  obtain ⟨f, guests, rs, hlive, hsame, hsrcs, hread, hrows⟩ := hb.readings hw hup
  obtain ⟨rs', hsrcs', hread', rfl⟩ := later_readings h
  replace hguests := hguests.trans hsame.symm
  let g := st.allUnder E.under .baseline level
  have hmem : ∀ src, src ∈ rs'.map (·.source) ↔ src ∈ rs.map (·.source) := fun src => by
    rw [hsrcs, hsrcs', List.mem_cons, List.mem_cons, (hguests.map _).mem_iff]
  have hnd : (rs'.map (·.source)).Nodup := by
    have hperm : (rs'.map (·.source)).Perm (rs.map (·.source)) := by
      rw [hsrcs, hsrcs']
      exact (hguests.map _).cons _
    exact hperm.nodup_iff.mpr hlive.distinct
  obtain ⟨hcases, hmerkle⟩ := later_subtrees hl hlive hread hrows hread' fun r' hr' =>
    (hmem r'.source).mp (List.mem_map_of_mem hr')
  have hsub := subtrees_of_readings hnd hmerkle
  -- row by row, the rows of a stopped guest are those of the baseline
  have hrow : ∀ q hash, (∃ n ∈ rs'.flatMap (subtreeOf E level g), n.path = q ∧ n.hash = hash) ↔
      ∃ n ∈ rs.flatMap (subtreeOf E level f), n.path = q ∧ n.hash = hash := by
    intro q hash
    have hfrozen : ∀ r' ∈ rs', r'.live = none → ((∃ n ∈ subtreeOf E level g r',
        n.path = q ∧ n.hash = hash) ↔ ∃ n ∈ (st.part .baseline level).rows,
          Below r'.source.pathPrefix n.path ∧ n.path = q ∧ n.hash = hash) := by
      intro r' hr' hdown
      obtain ⟨r, hr, hrsrc⟩ := (hcases r' hr').2
      obtain ⟨n, hn, hnp⟩ := root_row E level f hlive hr
      have hroot : ∃ n ∈ (st.part .baseline level).rows, Below r'.source.pathPrefix n.path := by
        refine ⟨n, hrows ▸ mem_assembleForest.mpr
          (Or.inl (List.mem_flatMap.mpr ⟨r, hr, hn⟩)), ?_⟩
        rw [hnp, hrsrc]
        exact Below.refl _
      unfold subtreeOf
      rw [hdown]
      exact mem_freezeSubtree hroot
    constructor
    · rintro ⟨n, hn, hnq⟩
      obtain ⟨r', hr', hn⟩ := List.mem_flatMap.mp hn
      by_cases hdown : r'.live = none
      · obtain ⟨m, hm, hb', hmq⟩ := (hfrozen r' hr' hdown).mp ⟨n, hn, hnq⟩
        obtain ⟨r, hr, -, hm⟩ := row_in_subtree hlive (hrows ▸ hm) hb'
        exact ⟨m, List.mem_flatMap.mpr ⟨r, hr, hm⟩, hmq⟩
      · have hr := (hcases r' hr').1.resolve_left hdown
        exact ⟨n, List.mem_flatMap.mpr ⟨r', hr, subtreeOf_live hdown g f ▸ hn⟩, hnq⟩
    · rintro ⟨n, hn, hnq⟩
      obtain ⟨r, hr, hn⟩ := List.mem_flatMap.mp hn
      obtain ⟨r', hr', hrsrc⟩ :=
        List.mem_map.mp ((hmem r.source).mpr (List.mem_map_of_mem hr))
      by_cases hdown : r'.live = none
      · obtain ⟨enumerated, hashes, hlive'⟩ := hlive.read hr
        have hmerkle' : MerkleTree E.sha256 r.source.pathPrefix (subtreeOf E level f r) :=
          (hlive.sound r hr).subtree_merkle hlive'
        have hb' := hmerkle'.below n hn
        have hrow : n ∈ (st.part .baseline level).rows :=
          hrows ▸ mem_assembleForest.mpr (Or.inl (List.mem_flatMap.mpr ⟨r, hr, hn⟩))
        obtain ⟨m, hm, hmq⟩ := (hfrozen r' hr' hdown).mpr ⟨n, hrow, hrsrc ▸ hb', hnq⟩
        exact ⟨m, List.mem_flatMap.mpr ⟨r', hr', hm⟩, hmq⟩
      · have hr'' := (hcases r' hr').1.resolve_left hdown
        have hsame : r' = r := List.inj_on_of_nodup_map hlive.distinct hr'' hr hrsrc
        exact ⟨n, List.mem_flatMap.mpr
          ⟨r', hr', subtreeOf_live hdown f g ▸ hsame ▸ hn⟩, hnq⟩
  have hsub₀ : Subtrees E.sha256 (rs.flatMap (subtreeOf E level f)) := hlive.subtrees
  refine ⟨forest_merkle hsub, fun p => ?_⟩
  rw [hrows]
  refine forest_hashAt_congr hsub hsub₀ (fun q => Option.ext fun hash => ?_) p
  rw [hashAt_eq_some_iff hsub.nodup, hashAt_eq_some_iff hsub₀.nodup]
  exact hrow q hash

end

/-! ## What a verification reports -/

theorem isLeafDrift_removed {b w : Partition} {e : DriftEntry} (h : e.kind = .removed) :
    isLeafDrift b w e = true := by
  unfold isLeafDrift
  simp [h]

/-- Equal hashes, no drift. -/
theorem levelDrift_of_agree {b w : Partition} (h : ∀ p, hashAt b.rows p = hashAt w.rows p)
    (scope : Str) : levelDrift b w scope = [] := by
  have hdiff : treeDiff b w scope = [] := by
    rw [List.eq_nil_iff_forall_not_mem]
    intro e he
    obtain ⟨p, -, hp⟩ := mem_treeDiff.mp he
    exact entryAt_hash_ne hp (h p)
  unfold levelDrift
  rw [hdiff]
  rfl

/-- A path that only the baseline has is drift of the whole forest. -/
theorem levelDrift_of_gone {sha256 : Bytes → Bytes} (hsha : Digest.CollisionFree sha256)
    {b w : Partition} (hb : MerkleTree sha256 SUPER_ROOT b.rows)
    (hw : MerkleTree sha256 SUPER_ROOT w.rows) {p : Str} (hp : p.head? ≠ some '/')
    (hbp : b.get p ≠ none) (hwp : w.get p = none) : levelDrift b w SUPER_ROOT ≠ [] := by
  have hne : hashAt b.rows p ≠ hashAt w.rows p := fun h =>
    hbp (hashAt_eq_none_iff.mp (h.trans (hashAt_eq_none_iff.mpr hwp)))
  obtain ⟨q, hv, hqp, -, hend⟩ := covered_by_diff hsha hb hw (below_root hp) hne
  have hbq : b.get q ≠ none := mt hashAt_eq_none_iff.mpr
    (hb.present_above hqp (mt hashAt_eq_none_iff.mp hbp))
  have hwq : w.get q = none := by
    rcases hend with h | h | h
    · rw [h, hwp]
    · exact absurd h hbq
    · exact h
  obtain ⟨bn, hbn⟩ := Option.ne_none_iff_exists'.mp hbq
  have hentry : entryAt b w q = some ⟨q, .removed, some bn.hash, none, some bn.state, none⟩ := by
    unfold entryAt
    rw [hbn, hwq]
  intro hnil
  have hdrift : driftAt (levelDrift b w SUPER_ROOT) q = some _ :=
    driftAt_levelDrift.mpr ⟨hv, hentry, isLeafDrift_removed rfl⟩
  rw [hnil] at hdrift
  cases hdrift

section

theorem driftOf_eq_nil {audit : List AuditRecord} {m : PerLevel} :
    driftOf audit m = [] ↔ ∀ l, m.at l = [] := by
  constructor
  · intro h l
    by_contra hne
    obtain ⟨e, he⟩ := List.exists_mem_of_ne_nil _ hne
    have hhas : m.has l e.path := by
      unfold PerLevel.has driftAt
      exact KeyedList.lookup_isSome_iff.mpr ⟨e, he, rfl⟩
    have hdrift : ∃ d ∈ driftOf audit m, d.path = e.path := exists_driftOf hhas
    obtain ⟨d, hd, -⟩ := hdrift
    rw [h] at hd
    cases hd
  · intro h
    rw [List.eq_nil_iff_forall_not_mem]
    intro d hd
    obtain ⟨-, l, hl⟩ := mem_driftOf.mp hd
    unfold PerLevel.has at hl
    rw [h l] at hl
    cases hl

variable {E : Env} {w : World} {level : VerifyLevel} {s : EngineState}

/-- The call with which the pass of the first diff begins, if a verification gets there. -/
def FirstBegins (E : Env) (w : World) (s : EngineState) (j : Nat) : VerifyLevel → Prop
  | .only .l1 => j = s.calls
  | .only _ => ∃ nodes, computeForestNodes E w s.store .l1 s.calls = .ok nodes j
  | .smart => j = s.calls

/-- The first diff decides whether there is any drift. -/
theorem compareLevels_clean_iff {scope : Str} :
    (∃ m t, compareLevels E w level scope s = .ok m t ∧ ∀ l, m.at l = []) ↔
      ∃ j nodes j', FirstBegins E w s j level ∧
        computeForestNodes E w s.store level.first j = .ok nodes j' ∧
        levelDrift (s.store.part .baseline level.first) (.ofNodes nodes) scope = [] := by
  unfold compareLevels
  constructor
  · rintro ⟨m, t, h, hclean⟩
    obtain ⟨d₁, t₁, h₁, h⟩ := bind_eq_ok h
    obtain ⟨nodes₁, k₁, hpass₁, rfl, rfl⟩ := computeAndDiff_eq_ok E w s.store h₁ rfl
    cases level with
    | only l =>
      cases l with
      | l1 =>
        obtain ⟨rfl, -⟩ := pure_eq_ok h
        exact ⟨_, nodes₁, k₁, rfl, hpass₁, hclean .l1⟩
      | l2 | l3 =>
        obtain ⟨d₂, t₂, h₂, h⟩ := bind_eq_ok h
        obtain ⟨nodes₂, k₂, hpass₂, rfl, -⟩ :=
          computeAndDiff_eq_ok E w s.store h₂ (landWorking_baseline E _ _ _ _)
        obtain ⟨rfl, -⟩ := pure_eq_ok h
        -- the two levels differ only in which part of the report they fill
        first
        | exact ⟨k₁, nodes₂, k₂, ⟨nodes₁, hpass₁⟩, hpass₂, hclean .l2⟩
        | exact ⟨k₁, nodes₂, k₂, ⟨nodes₁, hpass₁⟩, hpass₂, hclean .l3⟩
    | smart =>
      dsimp only at h
      split at h
      · next hnone => exact ⟨_, nodes₁, k₁, rfl, hpass₁, hnone⟩
      · next hsome =>
        obtain ⟨d₂, t₂, -, h⟩ := bind_eq_ok h
        obtain ⟨d₃, t₃, -, h⟩ := bind_eq_ok h
        obtain ⟨rfl, -⟩ := pure_eq_ok h
        exact absurd (hclean .l1) hsome
  · rintro ⟨j, nodes, j', hbegins, hpass, hclean⟩
    have hnil (m : PerLevel) (h₁ : m.l1 = []) (h₂ : m.l2 = []) (h₃ : m.l3 = []) :
        ∀ l, m.at l = [] := fun l => by cases l <;> assumption
    cases level with
    | only l =>
      cases l with
      | l1 =>
        cases hbegins
        have hdiff : computeAndDiff E w scope .l1 s = _ := computeAndDiff_ok E w rfl hpass
        rw [bind_of_ok hdiff]
        exact ⟨_, _, rfl, hnil _ hclean rfl rfl⟩
      | l2 | l3 =>
        obtain ⟨nodes₁, hpass₁⟩ := hbegins
        rw [bind_of_ok (computeAndDiff_ok E w rfl hpass₁)]
        refine ⟨_, _, bind_of_ok (computeAndDiff_ok E w
          (landWorking_baseline E _ _ _ _) hpass), ?_⟩
        first
        | exact hnil _ rfl hclean rfl
        | exact hnil _ rfl rfl hclean
    | smart =>
      cases hbegins
      replace hclean : levelDrift (s.store.part .baseline .l1) (.ofNodes nodes) scope = [] := hclean
      have hdiff : computeAndDiff E w scope .l1 s = _ := computeAndDiff_ok E w rfl hpass
      rw [bind_of_ok hdiff]
      dsimp only
      rw [if_pos hclean]
      exact ⟨_, _, rfl, hnil _ rfl rfl rfl⟩

/-- A verification of established levels returns without drift when the pass of its
first diff succeeds and agrees with the baseline. -/
theorem verify_clean_iff (hns : ¬ Seeds E level s.store) {scope : Str} :
    (∃ r s', verify E w level scope s = .ok r s' ∧ r.drift = []) ↔
      ∃ j nodes j', FirstBegins E w s j level ∧
        computeForestNodes E w s.store level.first j = .ok nodes j' ∧
        levelDrift (s.store.part .baseline level.first) (.ofNodes nodes) scope = [] := by
  rw [← compareLevels_clean_iff, verify_of_not_seeds E w hns]
  unfold compareWithBaseline
  constructor
  · rintro ⟨r, s', h, hdrift⟩
    obtain ⟨m, t, hm, h⟩ := bind_eq_ok h
    injection h with hr
    exact ⟨m, t, hm, driftOf_eq_nil.mp (hr ▸ hdrift)⟩
  · rintro ⟨m, t, hm, hclean⟩
    rw [bind_of_ok hm]
    exact ⟨_, _, rfl, driftOf_eq_nil.mpr hclean⟩

/-- What the passes show at the level of the first diff. -/
theorem verifyShown_first {j j' : Nat} {nodes : List StoredNode}
    (hbegins : FirstBegins E w s j level)
    (h : computeForestNodes E w s.store level.first j = .ok nodes j') :
    (verifyShown E w level s).at level.first = .ofNodes nodes := by
  have hhead {l : Level} {k k' : Nat} (hpass : computeForestNodes E w s.store l k = .ok nodes k')
      (ls : List Level) : (passes E w s.store (l :: ls) k).at l = .ofNodes nodes := by
    rw [passes_of_ok E w hpass, Shown.at_cons, if_pos rfl]
  cases level with
  | only l =>
    cases l with
    | l1 =>
      cases hbegins
      exact hhead h []
    | l2 | l3 =>
      obtain ⟨nodes₁, hpass₁⟩ := hbegins
      rw [verifyShown_only E w (by decide), passes_of_ok E w hpass₁, Shown.at_cons,
        if_neg (by decide)]
      exact hhead h []
  | smart =>
    cases hbegins
    exact hhead h [.l2, .l3]

theorem not_seeds_of_rows (h : ∀ l ∈ level.levels, (s.store.part .baseline l).rows ≠ []) :
    ¬ Seeds E level s.store := by
  rintro ⟨l, hl, hempty⟩
  obtain ⟨n, hn⟩ := List.exists_mem_of_ne_nil _ (h l hl)
  have hmem : n ∈ s.store.allUnder E.under .baseline l ['/'] :=
    Partition.mem_allUnder.mpr ⟨Partition.get_eq_some_iff.mpr ⟨hn, rfl⟩, E.laws.whole n.path⟩
  rw [List.isEmpty_iff.mp hempty] at hmem
  cases hmem

end

/-! ## A pass and its calls -/

section

variable {E : Env} {w w' : World} {level : Level}

theorem run_of_exec {w : World} {cmd : Str} {k : Nat} {res : ExecResult}
    (h : w.exec k cmd = .ok res) : w.run cmd k = .ok res (k + 1) := by
  unfold World.run
  rw [h]

theorem run_of_error {w : World} {cmd e : Str} {k : Nat} (h : w.exec k cmd = .error e) :
    w.run cmd k = .error e (k + 1) := by
  unfold World.run
  rw [h]

theorem readSources_cons_of_ok {cfg : Config} {src : SubtreeSource} {srcs : List SubtreeSource}
    {r : Reading} {k j k' : Nat} (h : readSource w cfg level src k = .ok r j) :
    (∃ rs, readSources w cfg level (src :: srcs) k = .ok rs k') ↔
      ∃ rs, readSources w cfg level srcs j = .ok rs k' := by
  rw [readSources, bind_of_ok h]
  constructor
  · rintro ⟨rs, hrs⟩
    obtain ⟨rs', i, hrs', hpure⟩ := bind_eq_ok hrs
    obtain ⟨-, rfl⟩ := pure_eq_ok hpure
    exact ⟨rs', hrs'⟩
  · rintro ⟨rs, hrs⟩
    exact ⟨_, bind_of_ok hrs⟩

/-- The guests are read, up to the call that the answers of their probes give. -/
theorem afterGuests_eq_some_iff {cfg : Config} {vs : List Nat}
    (hread : ∀ v ∈ vs, w.Runs (.container v) → ∀ j, ∃ r,
      readLive w cfg level (.container v) j = .ok r (j + w.readCalls cfg level (.container v)))
    (k k' : Nat) : w.afterGuests cfg level vs k = some k' ↔
      ∃ rs, readSources w cfg level (vs.map .container) k = .ok rs k' := by
  induction vs generalizing k with
  | nil =>
    refine ⟨fun h => ⟨[], ?_⟩, fun ⟨rs, h⟩ => congrArg some (pure_eq_ok h).2⟩
    rw [← Option.some.inj h]
    rfl
  | cons v vs ih =>
    have hrest := ih fun v' hv' => hread v' (List.mem_cons_of_mem v hv')
    rw [World.afterGuests, List.map_cons]
    cases hup : available w (.container v) k with
    | ok up j =>
      cases up with
      | true =>
        obtain ⟨r, hr⟩ := hread v List.mem_cons_self ⟨k, j, hup⟩ j
        exact (hrest _).trans (readSources_cons_of_ok ((bind_of_ok hup).trans hr)).symm
      | false => exact (hrest j).trans (readSources_cons_of_ok (bind_of_ok hup)).symm
    | error e j =>
      have hfails : readSource w cfg level (.container v) k = .error e j := bind_of_error hup
      constructor
      · intro h
        cases h
      · rintro ⟨rs, h⟩
        rw [readSources, bind_of_error hfails] at h
        cases h

/-- What was read at some level can be read again, at that level and at L1. -/
theorem readLive_again {cfg : Config} {src : SubtreeSource} {l l' : Level} (hl : w.Later w' cfg)
    (hrun : w'.Runs src) {i i' : Nat} {r : Reading} (h : readLive w cfg l src i = .ok r i')
    (hlevel : l' = .l1 ∨ l' = l) (j : Nat) :
    ∃ r', readLive w' cfg l' src j = .ok r' (j + w'.readCalls cfg l' src) := by
  rcases hlevel with rfl | rfl
  · unfold readLive at h
    obtain ⟨enumerated, k, henum, -⟩ := bind_eq_ok h
    have hfirst : readLive w cfg .l1 src i = .ok ⟨src, some (enumerated, [])⟩ k := by
      unfold readLive
      rw [bind_of_ok henum]
      rfl
    exact ⟨_, readLive_later hl hrun hfirst j⟩
  · exact ⟨r, readLive_later hl hrun h j⟩

/-- Where the listing fails, no guest is named. -/
theorem World.guestsAt_eq_nil {k : Nat} (h : ¬ w.ListsAt k) : w.guestsAt k = [] := by
  unfold World.guestsAt
  cases hlist : w.exec k pctListCommand with
  | ok res => exact if_neg fun hexit => h ⟨res, hlist, hexit⟩
  | error e => rfl

/-- A later pass goes through exactly when its listing and its probes are answered. -/
theorem afterPass_eq_some_iff (hw : w.DescribesTrees E.cfg) (hup : w.AllUp)
    (hl : w.Later w' E.cfg) {l : Level} {st : Store} (hb : w.Established E l st)
    (hlevel : level = .l1 ∨ level = l) (k k' : Nat) :
    w'.afterPass E.cfg level k = some k' ↔
      ∃ nodes, computeForestNodes E w' st level k = .ok nodes k' := by
  obtain ⟨f, guests, rs, -, hsame, hsrcs, hread, -⟩ := hb.readings hw hup
  have hlive : ∀ src, src ∈ SubtreeSource.host :: guests.map .container → w'.Runs src → ∀ j,
      ∃ r, readLive w' E.cfg level src j = .ok r (j + w'.readCalls E.cfg level src) := by
    intro src hsrc hrun j
    obtain ⟨r, hr, rfl⟩ := List.mem_map.mp (hsrcs ▸ hsrc)
    obtain ⟨i, i', hi⟩ := hread r hr
    exact readLive_again hl hrun hi hlevel j
  -- a listing that is answered names the guests of the baseline, in some order
  have hguests : ∀ v ∈ w'.guestsAt k, v ∈ guests := by
    intro v hv
    by_cases hlists : w'.ListsAt k
    · exact ((hl.guests k hlists).trans hsame.symm).mem_iff.mp hv
    · rw [World.guestsAt_eq_nil hlists] at hv
      cases hv
  obtain ⟨r, hr⟩ := hlive .host List.mem_cons_self w'.runs_host (k + 1)
  have hall : w'.afterGuests E.cfg level (w'.guestsAt k) (k + 1 + w'.readCalls E.cfg level .host) =
      some k' ↔ _ := afterGuests_eq_some_iff (fun v hv hrun j =>
    hlive _ (List.mem_cons_of_mem _ (List.mem_map_of_mem (hguests v hv))) hrun j) _ k'
  unfold World.afterPass computeForestNodes
  cases hlist : w'.exec k pctListCommand with
  | ok res =>
    obtain ⟨srcs, hsrcs'⟩ : ∃ srcs, buildSources w' k = .ok srcs (k + 1) :=
      ⟨_, bind_of_ok (run_of_exec hlist)⟩
    rw [buildSources_guests hsrcs'] at hsrcs'
    have hhost : readSource w' E.cfg level .host (k + 1) =
        .ok r (k + 1 + w'.readCalls E.cfg level .host) := hr
    refine (hall.trans (readSources_cons_of_ok hhost).symm).trans ?_
    rw [bind_of_ok hsrcs']
    constructor
    · rintro ⟨rs', hrs'⟩
      exact ⟨_, bind_of_ok hrs'⟩
    · rintro ⟨nodes, h⟩
      obtain ⟨rs', i, hrs', hpure⟩ := bind_eq_ok h
      obtain ⟨-, rfl⟩ := pure_eq_ok hpure
      exact ⟨rs', hrs'⟩
  | error e =>
    have hfails : buildSources w' k = .error e (k + 1) := bind_of_error (run_of_error hlist)
    constructor
    · intro h
      cases h
    · rintro ⟨nodes, h⟩
      rw [bind_of_error hfails] at h
      cases h

/-- The first diff is reached, at the call that the answers give. -/
theorem firstCall_eq_some_iff (hw : w.DescribesTrees E.cfg) (hup : w.AllUp)
    (hl : w.Later w' E.cfg) {level : VerifyLevel} {s : EngineState}
    (hb : w.Established E level.first s.store) (j : Nat) :
    w'.firstCall E.cfg level s.calls = some j ↔ FirstBegins E w' s j level := by
  cases level with
  | only l =>
    cases l with
    | l1 => exact Option.some_inj.trans eq_comm
    | l2 | l3 => exact afterPass_eq_some_iff hw hup hl hb (Or.inl rfl) s.calls j
  | smart => exact Option.some_inj.trans eq_comm

/-- In a forest whose pass got no listing, every guest of the baseline is gone. -/
theorem drift_of_unlisted (hsha : Digest.CollisionFree E.sha256) (hw : w.DescribesTrees E.cfg)
    (hup : w.AllUp) (hl : w.Later w' E.cfg) {st : Store} (hb : w.Established E level st)
    (hhad : w.guests ≠ []) {k k' : Nat} (hlost : ¬ w'.ListsAt k) {nodes : List StoredNode}
    (hpass : computeForestNodes E w' st level k = .ok nodes k') :
    levelDrift (st.part .baseline level) (.ofNodes nodes) SUPER_ROOT ≠ [] := by
  obtain ⟨f, guests, rs, hlive, hsame, hsrcs, hread, hrows⟩ := hb.readings hw hup
  obtain ⟨rs', hsrcs', hread', rfl⟩ := later_readings hpass
  rw [World.guestsAt_eq_nil hlost, List.map_nil] at hsrcs'
  have hhost : ∀ r' ∈ rs', r'.source = .host := fun r' hr' =>
    List.mem_singleton.mp (hsrcs' ▸ List.mem_map_of_mem hr')
  obtain ⟨-, hmerkle⟩ := later_subtrees hl hlive hread hrows hread' fun r' hr' => by
    rw [hhost r' hr', hsrcs]
    exact List.mem_cons_self
  have hsub := subtrees_of_readings (hsrcs' ▸ List.nodup_singleton _) hmerkle
  obtain ⟨v, hv⟩ := List.exists_mem_of_ne_nil _ hhad
  have hguest : SubtreeSource.container v ∈ rs.map (·.source) :=
    hsrcs ▸ List.mem_cons_of_mem _ (List.mem_map_of_mem (hsame.mem_iff.mpr hv))
  obtain ⟨r₀, hr₀, hsrc₀⟩ := List.mem_map.mp hguest
  obtain ⟨n, hn, hnp⟩ := root_row E level f hlive hr₀
  have hnrow : n ∈ (st.part .baseline level).rows :=
    hrows ▸ mem_assembleForest.mpr (Or.inl (List.mem_flatMap.mpr ⟨r₀, hr₀, hn⟩))
  -- the guest's root is nowhere in a forest of the host alone
  have hgone : ∀ m ∈ assembleForest E level (st.allUnder E.under .baseline level) rs',
      m.path ≠ n.path := by
    intro m hm hmp
    have hbelow : Below (SubtreeSource.container v).pathPrefix m.path := by
      rw [hmp, hnp, hsrc₀]
      exact Below.refl _
    rcases mem_assembleForest.mp hm with hm | hm
    · obtain ⟨r', hr', hm⟩ := List.mem_flatMap.mp hm
      have := source_unique ((hmerkle r' hr').below m hm) hbelow
      rw [hhost r' hr'] at this
      cases this
    · exact not_below_source (foldForestRoots_row hsub hm).1 hbelow
  have hbase : MerkleTree E.sha256 SUPER_ROOT (st.part .baseline level).rows :=
    hrows ▸ hlive.merkle
  have hfresh : MerkleTree E.sha256 SUPER_ROOT
      (assembleForest E level (st.allUnder E.under .baseline level) rs') := forest_merkle hsub
  refine levelDrift_of_gone hsha hbase ?_ n.rooted.head ?_ ?_
  · rwa [Partition.ofNodes_rows hfresh.nodup]
  · rw [Partition.get_eq_some_iff.mpr ⟨hnrow, rfl⟩]
    simp
  · rw [get_eq_rowAt, Partition.ofNodes_rows hfresh.nodup]
    exact rowAt_eq_none_iff.mpr hgone

end

/-! ## A quiet verification -/

/-- A verification says nothing: for every scope it returns without drift, and its first
diff compares with rows that keep the baseline's hashes of the guests. -/
structure Quiet (E : Env) (w : World) (level : VerifyLevel) (s : EngineState) : Prop where
  noDrift : ∀ scope, ∃ r s', verify E w level scope s = .ok r s' ∧ r.drift = []
  kept : ∀ vmid p, Below (SubtreeSource.container vmid).pathPrefix p →
    hashAt ((verifyShown E w level s).at level.first).rows p =
      hashAt (s.store.part .baseline level.first).rows p

section

variable {E : Env} {w w' : World} {level : VerifyLevel} {s : EngineState}

theorem VerifyLevel.first_mem (level : VerifyLevel) : level.first ∈ level.levels := by
  cases level with
  | only l => exact List.mem_singleton_self l
  | smart => decide

theorem World.Established.not_seeds (hw : w.DescribesTrees E.cfg) (hup : w.AllUp)
    (hb : ∀ l ∈ level.levels, w.Established E l s.store) : ¬ Seeds E level s.store := by
  refine not_seeds_of_rows fun l hl => ?_
  obtain ⟨f, guests, rs, hlive, -, hsrcs, -, hrows⟩ := (hb l hl).readings hw hup
  have hhost : SubtreeSource.host ∈ rs.map (·.source) := hsrcs ▸ List.mem_cons_self
  obtain ⟨r, hr, -⟩ := List.mem_map.mp hhost
  obtain ⟨n, hn, -⟩ := root_row E l f hlive hr
  exact hrows ▸ List.ne_nil_of_mem
    (mem_assembleForest.mpr (Or.inl (List.mem_flatMap.mpr ⟨r, hr, hn⟩)))

/-- As long as the listing and the probes are answered, whatever guests have stopped, a
verification is quiet. -/
theorem quiet_of_heard (hw : w.DescribesTrees E.cfg) (hup : w.AllUp) (hl : w.Later w' E.cfg)
    (hb : ∀ l ∈ level.levels, w.Established E l s.store)
    (hheard : w.HearsGuests w' E.cfg level s.calls) : Quiet E w' level s := by
  have hns := World.Established.not_seeds hw hup hb
  have hfirst := hb _ level.first_mem
  obtain ⟨j, hj, hafter, hlisted⟩ := hheard
  obtain ⟨j', hj'⟩ := Option.isSome_iff_exists.mp hafter
  obtain ⟨nodes, hpass⟩ := (afterPass_eq_some_iff hw hup hl hfirst (Or.inr rfl) j j').mp hj'
  have hbegins := (firstCall_eq_some_iff hw hup hl hfirst j).mp hj
  have hguests : (w'.guestsAt j).Perm w.guests := by
    by_cases hlists : w'.ListsAt j
    · exact hl.guests j hlists
    · rw [World.guestsAt_eq_nil hlists, hlisted.resolve_right hlists]
  obtain ⟨hmerkle, hagree⟩ := pass_agrees hw hup hl hfirst hguests hpass
  have hrows : (Partition.ofNodes nodes).rows = nodes := Partition.ofNodes_rows hmerkle.nodup
  constructor
  · intro scope
    refine (verify_clean_iff hns).mpr ⟨j, nodes, j', hbegins, hpass, ?_⟩
    refine levelDrift_of_agree (fun p => ?_) scope
    rw [hrows]
    exact (hagree p).symm
  · intro vmid p _
    rw [verifyShown_first hbegins hpass, hrows]
    exact hagree p

/-- A quiet verification got its listing and the answers of its probes. -/
theorem heard_of_quiet (hsha : Digest.CollisionFree E.sha256) (hw : w.DescribesTrees E.cfg)
    (hup : w.AllUp) (hl : w.Later w' E.cfg) (hb : ∀ l ∈ level.levels, w.Established E l s.store)
    (hquiet : Quiet E w' level s) : w.HearsGuests w' E.cfg level s.calls := by
  have hns := World.Established.not_seeds hw hup hb
  have hfirst := hb _ level.first_mem
  obtain ⟨j, nodes, j', hbegins, hpass, hclean⟩ :=
    (verify_clean_iff hns).mp (hquiet.noDrift SUPER_ROOT)
  refine ⟨j, (firstCall_eq_some_iff hw hup hl hfirst j).mpr hbegins, ?_, ?_⟩
  · rw [(afterPass_eq_some_iff hw hup hl hfirst (Or.inr rfl) j j').mpr ⟨nodes, hpass⟩]
    rfl
  · by_contra hlost
    rw [not_or] at hlost
    exact drift_of_unlisted hsha hw hup hl hfirst hlost.1 hlost.2 hpass hclean

end

/-- A verification of a node whose files are unchanged is quiet exactly when, up to its
first diff, the listing and the status probes are answered and no guest is missed. -/
theorem quiet_iff {E : Env} (hsha : Digest.CollisionFree E.sha256) {w w' : World}
    (hw : w.DescribesTrees E.cfg) (hup : w.AllUp) (hl : w.Later w' E.cfg) {level : VerifyLevel}
    {s : EngineState} (hb : ∀ l ∈ level.levels, w.Established E l s.store) :
    Quiet E w' level s ↔ w.HearsGuests w' E.cfg level s.calls :=
  ⟨heard_of_quiet hsha hw hup hl hb, quiet_of_heard hw hup hl hb⟩

/-! ## A node with one guest -/

/-- A host and the guest 101, with one file each; the guest runs or not, and `pct list`
ends with an exit code. -/
def webNode (running : Bool) (listExit : Int) : World where
  exec _ cmd := .ok <|
    if cmd = pctListCommand then
      ⟨if listExit = 0 then "VMID Status Lock Name\n101 running web".toList else [], [],
        some listExit⟩
    else if cmd = buildPctStatusCommand 101 then
      ⟨if running then "status: running".toList else "status: stopped".toList, [], some 0⟩
    else if cmd = enumCommand .default .host ∨ cmd = enumCommand .default (.container 101) then
      ⟨[FsEntry.dir "/etc", .file "/etc/motd" "1.0" 'a'].flatMap (·.enumLine), [], some 0⟩
    else ⟨[], "command not found".toList, some 127⟩
  uuid := numeral
  now := numeral

/-- A listing whose files are its longest paths is that of a tree, for any source. -/
theorem TreeShaped.of_longest {src : SubtreeSource} {listing : List EnumeratedEntry}
    (hfile : ∀ e ∈ listing, e.kind = .file → e.nodePath ≠ ['/'] ∧
      ∀ e' ∈ listing, e'.nodePath.length ≤ e.nodePath.length)
    (hnamed : ∀ e ∈ listing, Char.ofNat 0 ∉ e.nodePath) : TreeShaped src listing := by
  refine .of_listing (fun e he e' he' hbelow => ?_) hnamed
  by_contra hdir
  have hkind : e.kind = .file := by
    cases hk : e.kind with
    | file => rfl
    | dir => exact absurd hk hdir
  obtain ⟨hne, hlongest⟩ := hfile e he hkind
  have hlen := hbelow.length_le
  have hle := hlongest e' he'
  unfold toForestPath at hlen
  rw [if_neg hne] at hlen
  split at hlen
  · rw [List.length_append, List.length_append, List.length_singleton] at hlen
    omega
  · rw [List.length_append, List.length_append, List.length_append, List.length_singleton] at hlen
    omega

theorem webNode_describesTrees (running : Bool) :
    (webNode running 0).DescribesTrees Env.sample.cfg := by
  refine ⟨fun k res h => ?_, fun k src res h => ?_⟩
  · have hres := Except.ok.inj h
    rw [if_pos rfl] at hres
    rw [← hres]
    decide +kernel
  · have hres := Except.ok.inj h
    rw [← hres]
    split
    · exact .of_longest (by decide +kernel) (by decide +kernel)
    · split
      · cases running with
        | true => exact .of_longest (by decide +kernel) (by decide +kernel)
        | false => exact .of_longest (by decide +kernel) (by decide +kernel)
      · split
        · exact .of_longest (by decide +kernel) (by decide +kernel)
        · exact .of_longest (by decide +kernel) (by decide +kernel)

theorem webNode_allUp : (webNode true 0).AllUp := by
  refine ⟨fun k => ⟨_, rfl, rfl⟩, fun k => List.Perm.refl _, fun v hv k b k' h => ?_⟩
  have hguests : (webNode true 0).guests = [101] := by decide +kernel
  rw [hguests, List.mem_singleton] at hv
  subst hv
  obtain ⟨st, j, hst, h⟩ := bind_eq_ok h
  obtain ⟨rfl, -⟩ := pure_eq_ok h
  have hres : (webNode true 0).exec k (buildPctStatusCommand 101) = .ok st := run_eq_ok hst
  obtain rfl := Except.ok.inj hres
  decide +kernel

/-- What the node answers to other commands than those of `pct list` and `pct status`
does not depend on its guest. -/
theorem webNode_answers {a b : Bool} {c d : Int} {cmd : Str} (hlist : cmd ≠ pctListCommand)
    (hstatus : cmd ≠ buildPctStatusCommand 101) (k k' : Nat) :
    (webNode a c).exec k' cmd = (webNode b d).exec k cmd := by
  refine congrArg Except.ok ?_
  rw [if_neg hlist, if_neg hstatus, if_neg hlist, if_neg hstatus]

theorem onTarget_ne {vmid : Option Nat} {inner : Str} (hinner : inner.head? ≠ some 'p') {cmd : Str}
    (hcmd : cmd.head? = some 'p') (hexec : cmd.take 5 ≠ "pct e".toList) :
    onTarget vmid inner ≠ cmd := by
  rintro rfl
  cases vmid with
  | none => exact hinner hcmd
  | some v => exact hexec rfl

theorem webNode_later (running : Bool) (listExit : Int) :
    (webNode true 0).Later (webNode running listExit) Env.sample.cfg := by
  refine ⟨fun k hlists => ?_, fun src _ k k' => ?_, fun src _ paths cmd hcmd k k' => ?_⟩
  · obtain ⟨res, hres, hexit⟩ := hlists
    obtain rfl := Except.ok.inj hres
    have hzero : listExit = 0 := Option.some.inj hexit
    rw [hzero]
    exact List.Perm.refl _
  · have hne : ∀ cmd : Str, cmd.head? = some 'p' → cmd.take 5 ≠ "pct e".toList →
        enumCommand Env.sample.cfg src ≠ cmd := by
      rintro cmd hhead htake rfl
      cases src with
      | host =>
        rw [enumCommand_head] at hhead
        exact absurd (Option.some.inj hhead) (by decide)
      | container v => exact htake rfl
    exact webNode_answers (hne _ (by decide) (by decide)) (hne _ (by decide) (by decide)) k k'
  · unfold buildSha256Command at hcmd
    split at hcmd
    · cases hcmd
    · have hne : ∀ other : Str, other.head? = some 'p' → other.take 5 ≠ "pct e".toList →
          cmd ≠ other := fun other hhead htake =>
        Option.some.inj hcmd ▸ onTarget_ne (by simp) hhead htake
      exact webNode_answers (hne _ (by decide) (by decide)) (hne _ (by decide) (by decide)) k k'

def webRows : List StoredNode :=
  (returned (computeForestNodes .sample (webNode true 0) .init .l1) 0).getD []

/-- The L1 baseline of the node. -/
def webBaseline : EngineState :=
  { EngineState.init with store := Store.init.setPart .baseline .l1 (.ofNodes webRows) }

theorem webBaseline_established :
    ∀ l ∈ (VerifyLevel.only .l1).levels, (webNode true 0).Established .sample l webBaseline.store := by
  intro l hl
  obtain rfl : l = .l1 := List.mem_singleton.mp hl
  have hsome : (returned (computeForestNodes .sample (webNode true 0) .init .l1) 0).isSome := by
    decide +kernel
  obtain ⟨nodes, hnodes⟩ := Option.isSome_iff_exists.mp hsome
  refine ⟨.init, 0, nodes, _, returned_eq_some.mp hnodes, ?_⟩
  have hrows : webRows = nodes := by rw [webRows, hnodes, Option.getD_some]
  rw [← hrows]
  show (Store.init.setPart .baseline .l1 (.ofNodes webRows)).part .baseline .l1 = _
  simp

theorem quiet_iff_web : Quiet .sample (webNode false 0) (.only .l1) webBaseline ↔
    (webNode true 0).HearsGuests (webNode false 0) Env.sample.cfg (.only .l1) webBaseline.calls :=
  quiet_iff Digest.lengthPrefixed_collisionFree (webNode_describesTrees true) webNode_allUp
    (webNode_later false 0) webBaseline_established

/-- When `pct list` fails, the guest that runs unchanged is reported as removed. -/
theorem not_quiet_unlisted :
    ¬ ∀ (w w' : World) (s : EngineState), w.DescribesTrees Env.sample.cfg → w.AllUp →
      w.Later w' Env.sample.cfg → (∀ l ∈ (VerifyLevel.only .l1).levels,
        w.Established .sample l s.store) → Quiet .sample w' (.only .l1) s := by
  intro h
  have hquiet := h (webNode true 0) (webNode true 255) webBaseline (webNode_describesTrees true)
    webNode_allUp (webNode_later true 255) webBaseline_established
  have hrun : (returned (verify .sample (webNode true 255) (.only .l1) SUPER_ROOT) webBaseline).map
      (fun r => r.drift.map (·.path)) = some [pctGroup] := by decide +kernel
  obtain ⟨r, s', hr, hdrift⟩ := hquiet.noDrift SUPER_ROOT
  have hreturned : returned (verify .sample (webNode true 255) (.only .l1) SUPER_ROOT)
      webBaseline = some r := by
    unfold returned
    rw [hr]
  rw [hreturned, Option.map_some, hdrift] at hrun
  cases hrun

end HomelabMcp.Integrity
