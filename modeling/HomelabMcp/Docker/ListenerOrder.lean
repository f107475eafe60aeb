import HomelabMcp.Docker.NetnsGroups
import HomelabMcp.Docker.ProviderChange

/-!
# The preflight and the order of what it is given (composePreflight.ts)

Several listeners can have one port: on other addresses, by other processes. Of these
`crossCheckBoundPorts` looks at the first.

- `Reordered.fails`: apart from the listeners, the order of the services does not decide
  whether the preflight fails.
- `listener_order_iff`: the order of listeners and services changes nothing exactly when
  the listeners on each claimed port are judged alike.
-/

namespace HomelabMcp.Docker

open SlashPath Text KeyedList

variable {next next' : ComposeModel} {opts opts' : AnalyzeOptions}

/-! ## Statements -/

/-- The same services and listeners, in another order. -/
structure Reordered (next next' : ComposeModel) (opts opts' : AnalyzeOptions) : Prop where
  services : next'.Perm next
  listeners : Option.Rel List.Perm opts'.bound opts.bound
  rest : opts' = { opts with bound := opts'.bound }

/-- The hazards of the live check, without their texts. -/
def liveHazards (report : PreflightReport) : List (HazardKind × HazardSeverity × Option Nat) :=
  (report.hazards.filter fun h => h.kind == .portBoundElsewhere).map Hazard.mark

def namesOf (next : ComposeModel) : List Str :=
  next.map fun s => s.name

/-- What the check makes of a listener on a claimed port: nothing when a service of the
file holds it. -/
def verdict (ownNames : List Str) (attribution : BoundPortAttribution) (b : BoundPort) :
    Option HazardSeverity :=
  if (named b.holder).any fun h => ownNames.contains h then none
  else if isOwnInstance attribution b then some .info
  else if (named (holderOf b)).isSome then some .error
  else some .warn

/-- A port that a service of the file claims. -/
def Claimed (next : ComposeModel) (port : Nat) : Prop :=
  ∃ c ∈ next.flatMap extractPortClaims, c.port = port

/-- The listeners on each claimed port are judged alike, when ports are checked. -/
def JudgedAlike (next : ComposeModel) (opts : AnalyzeOptions) : Prop :=
  ∀ bound, opts.checked = some bound → ∀ b ∈ bound, ∀ b' ∈ bound, b.port = b'.port →
    Claimed next b.port →
      verdict (namesOf next) opts.toBoundPortAttribution b =
        verdict (namesOf next) opts.toBoundPortAttribution b'

/-- No order of the services and the listeners changes what is reported. -/
def OrderFree (next : ComposeModel) (opts : AnalyzeOptions) : Prop :=
  ∀ next' opts', Reordered next next' opts opts' →
    (analyzeCompose next' opts').ok = (analyzeCompose next opts).ok ∧
      ∀ m, m ∈ liveHazards (analyzeCompose next' opts') ↔ m ∈ liveHazards (analyzeCompose next opts)

/-- Someone is known to hold the port, and is neither a service of the file nor a running
instance of it. -/
def KnownForeign (next : ComposeModel) (opts : AnalyzeOptions) (b : BoundPort) : Prop :=
  (∀ h, named b.holder = some h → h ∉ namesOf next) ∧
    isOwnInstance opts.toBoundPortAttribution b = false ∧ (named (holderOf b)).isSome = true

/-- A claimed port with a known foreign holder gives an error. -/
def ForeignReported (next : ComposeModel) (opts : AnalyzeOptions) : Prop :=
  ∀ bound, opts.checked = some bound → ∀ b ∈ bound, Claimed next b.port →
    KnownForeign next opts b →
      (HazardKind.portBoundElsewhere, HazardSeverity.error, some b.port) ∈
        liveHazards (analyzeCompose next opts)

/-! ## Services in another order -/

theorem serviceNamed_eq_some_iff (hnext : (namesOf next).Nodup) {name : Str}
    {svc : ComposeService} : serviceNamed next name = some svc ↔ svc ∈ next ∧ svc.name = name := by
  have hreverse : ((next.reverse).map fun s : ComposeService => s.name).Nodup := by
    rw [List.map_reverse]
    exact List.nodup_reverse.mpr hnext
  rw [← List.mem_reverse, ← lookup_eq_some_iff hreverse]
  unfold serviceNamed lookup
  simp only [beq_eq_decide]

/-- A service is found by its name in any order. -/
theorem serviceNamed_perm (hnext : (namesOf next).Nodup) (hperm : next'.Perm next) (name : Str) :
    serviceNamed next' name = serviceNamed next name := by
  have hnext' : (namesOf next').Nodup := (hperm.map _).nodup_iff.mpr hnext
  refine Option.ext fun svc => ?_
  rw [serviceNamed_eq_some_iff hnext, serviceNamed_eq_some_iff hnext', hperm.mem_iff]

/-- The same group, its members in any order. -/
structure SameGroup (g g' : NetnsGroup) : Prop where
  provider : g'.provider = g.provider
  members : ∀ a, a ∈ g'.members ↔ a ∈ g.members
  dependents : ∀ a, a ∈ g'.dependents ↔ a ∈ g.dependents

theorem groups_perm (hnext : (namesOf next).Nodup) (hperm : next'.Perm next) {g : NetnsGroup}
    (hg : g ∈ groupByNetns next) : ∃ g' ∈ groupByNetns next', SameGroup g g' := by
  have hnames : ∀ k, k ∈ (next'.map fun s => s.name) ↔ k ∈ next.map fun s => s.name :=
    fun k => (hperm.map _).mem_iff
  have hnext' : (next'.map fun s => s.name).Nodup := (hperm.map _).nodup_iff.mpr hnext
  obtain ⟨svc, hsvc, rfl⟩ := (mem_groupByNetns hnext).mp hg
  refine ⟨_, (mem_groupByNetns hnext').mpr ⟨svc, hperm.mem_iff.mpr hsvc, rfl⟩, ?_, fun a => ?_,
    fun a => ?_⟩
  · rw [addProvider_provider, addProvider_provider]
    unfold groupOf
    simp only [hnames]
  · rw [mem_members, mem_members, hnames]
    simp only [hperm.mem_iff]
  · rw [addProvider_dependents, addProvider_dependents]
    unfold groupOf
    exact ((hperm.filter _).map _).mem_iff

theorem Reordered.symm (h : Reordered next next' opts opts') : Reordered next' next opts' opts := by
  refine ⟨h.services.symm, ?_, ?_⟩
  · have hrel := h.listeners
    revert hrel
    generalize opts.bound = x
    generalize opts'.bound = y
    intro hrel
    cases hrel with
    | none => exact .none
    | some hperm => exact .some hperm.symm
  · rw [h.rest]

theorem Reordered.attribution (h : Reordered next next' opts opts') :
    opts'.toBoundPortAttribution = opts.toBoundPortAttribution := by
  rw [h.rest]

theorem Reordered.prev (h : Reordered next next' opts opts') : opts'.prev = opts.prev := by
  rw [h.rest]

theorem Reordered.checked (h : Reordered next next' opts opts') {bound : List BoundPort}
    (hchecked : opts.checked = some bound) :
    ∃ bound', opts'.checked = some bound' ∧ bound'.Perm bound := by
  have hrel := h.listeners
  have hflag : opts'.boundPortsChecked = opts.boundPortsChecked := by rw [h.rest]
  unfold AnalyzeOptions.checked at hchecked ⊢
  rw [hflag]
  split at hchecked
  · rename_i hon
    rw [if_pos hon]
    rw [hchecked] at hrel
    revert hrel
    generalize opts'.bound = y
    intro hrel
    cases hrel with
    | some hperm => exact ⟨_, rfl, hperm⟩
  · cases hchecked

theorem Reordered.claimed (h : Reordered next next' opts opts') {port : Nat} :
    Claimed next' port ↔ Claimed next port := by
  unfold Claimed
  simp only [List.mem_flatMap, h.services.mem_iff]

theorem Reordered.names (h : Reordered next next' opts opts') {name : Str} :
    name ∈ namesOf next' ↔ name ∈ namesOf next :=
  (h.services.map _).mem_iff

theorem Reordered.verdict (h : Reordered next next' opts opts') (b : BoundPort) :
    verdict (namesOf next') opts'.toBoundPortAttribution b =
      verdict (namesOf next) opts.toBoundPortAttribution b := by
  have hnames : (fun n => (namesOf next').contains n) = fun n => (namesOf next).contains n := by
    funext n
    rw [List.contains_eq_mem, List.contains_eq_mem]
    exact decide_eq_decide.mpr h.names
  unfold Docker.verdict
  rw [hnames, h.attribution]

theorem Reordered.judgedAlike (h : Reordered next next' opts opts') (hjudged : JudgedAlike next opts) :
    JudgedAlike next' opts' := by
  intro bound' hchecked' b hb b' hb' hport hclaimed
  obtain ⟨bound, hchecked, hperm⟩ := h.symm.checked hchecked'
  rw [h.verdict, h.verdict]
  exact hjudged bound hchecked b (hperm.mem_iff.mpr hb) b' (hperm.mem_iff.mpr hb') hport
    (h.claimed.mp hclaimed)

/-! ## The live check -/

/-- Bindings are reported by the live check. -/
theorem mem_hazardsOf_bound {claims : List PortClaim} {h : Hazard}
    (hkind : h.kind = .portBoundElsewhere) :
    h ∈ hazardsOf next claims opts ↔ h ∈ boundHazards next claims opts := by
  unfold hazardsOf
  rw [List.mem_append, List.mem_append]
  constructor
  · rintro ((hmem | hmem) | hmem)
    · rcases List.mem_append.mp hmem with hmem | hmem
      · obtain ⟨g, -, hmem⟩ := List.mem_flatMap.mp hmem
        obtain ⟨dep, -, rfl⟩ := List.mem_map.mp hmem
        cases hkind
      · obtain ⟨g, -, hmem⟩ := List.mem_flatMap.mp hmem
        unfold collisionHazards at hmem
        split at hmem
        · cases hmem
        · obtain ⟨port, -, rfl⟩ := List.mem_map.mp hmem
          cases hkind
    · obtain ⟨g, -, hmem⟩ := List.mem_filterMap.mp hmem
      unfold recreateHazard at hmem
      split at hmem
      · cases hmem
      · split at hmem
        · cases hmem
          cases hkind
        · cases hmem
      · cases hmem
        cases hkind
    · exact hmem
  · exact Or.inr

theorem boundHazards_kind {claims : List PortClaim} {h : Hazard}
    (hmem : h ∈ boundHazards next claims opts) : h.kind = .portBoundElsewhere := by
  unfold boundHazards at hmem
  split at hmem
  · exact crossCheck_kind hmem
  · cases hmem

theorem mem_liveHazards_iff_bound {m : HazardKind × HazardSeverity × Option Nat} :
    m ∈ liveHazards (analyzeCompose next opts) ↔
      m ∈ (boundHazards next (next.flatMap extractPortClaims) opts).map Hazard.mark := by
  unfold liveHazards
  rw [List.mem_map, List.mem_map]
  refine exists_congr fun h => and_congr_left fun _ => ?_
  rw [List.mem_filter, beq_iff_eq]
  constructor
  · rintro ⟨hmem, hkind⟩
    exact (mem_hazardsOf_bound hkind).mp hmem
  · intro hmem
    have hkind := boundHazards_kind hmem
    exact ⟨(mem_hazardsOf_bound hkind).mpr hmem, hkind⟩

/-- The first listener on a port. -/
def firstOn (bound : List BoundPort) (port : Nat) : Option BoundPort :=
  bound.find? fun b => b.port == port

theorem firstOn_spec {bound : List BoundPort} {port : Nat} {b : BoundPort}
    (h : firstOn bound port = some b) : b ∈ bound ∧ b.port = port :=
  ⟨List.mem_of_find?_eq_some h, by
    simpa using List.find?_some (show bound.find? (fun b => b.port == port) = some b from h)⟩

theorem firstOn_isSome {bound : List BoundPort} {b : BoundPort} (hb : b ∈ bound) :
    ∃ b', firstOn bound b.port = some b' :=
  Option.isSome_iff_exists.mp (List.find?_isSome.mpr ⟨b, hb, beq_self_eq_true _⟩)

theorem verdict_eq {ownNames : List Str} {attribution : BoundPortAttribution} {b : BoundPort} :
    verdict ownNames attribution b =
      if (named b.holder).any fun h => ownNames.contains h then none
      else some (if isOwnInstance attribution b then .info
        else if (named (holderOf b)).isSome then .error else .warn) := by
  unfold verdict
  split
  · rfl
  · split
    · rfl
    · split <;> rfl

/-- What is bound to a claimed port, and how that is reported, is the verdict on the first
listener. -/
theorem foreignBinding_iff {bound : List BoundPort} {ownNames : List Str}
    {attribution : BoundPortAttribution} {c : PortClaim}
    {m : HazardKind × HazardSeverity × Option Nat} :
    (∃ b, foreignBinding bound ownNames c = some b ∧ m = (boundElsewhere attribution c b).mark) ↔
      ∃ b severity, firstOn bound c.port = some b ∧ verdict ownNames attribution b = some severity ∧
        m = (.portBoundElsewhere, severity, some c.port) := by
  unfold foreignBinding firstOn
  simp only [boundElsewhere_mark, verdict_eq]
  cases bound.find? fun b => b.port == c.port with
  | none => simp
  | some b =>
    dsimp only
    constructor
    · rintro ⟨b', hb', rfl⟩
      split at hb'
      · cases hb'
      · rename_i hforeign
        cases hb'
        exact ⟨b, _, rfl, if_neg hforeign, rfl⟩
    · rintro ⟨b', severity, hb', hverdict, rfl⟩
      cases hb'
      split at hverdict
      · cases hverdict
      · rename_i hforeign
        cases hverdict
        exact ⟨b, if_neg hforeign, rfl⟩

/-- What the live check reports: for each port that is claimed and bound, the verdict on
the first listener. -/
theorem mem_liveHazards_iff {m : HazardKind × HazardSeverity × Option Nat} :
    m ∈ liveHazards (analyzeCompose next opts) ↔ ∃ bound, opts.checked = some bound ∧
      ∃ port, Claimed next port ∧ ∃ b severity, firstOn bound port = some b ∧
        verdict (namesOf next) opts.toBoundPortAttribution b = some severity ∧
          m = (.portBoundElsewhere, severity, some port) := by
  rw [mem_liveHazards_iff_bound]
  unfold boundHazards
  cases hchecked : opts.checked with
  | none => simp
  | some bound =>
    unfold crossCheckBoundPorts
    dsimp only
    rw [mem_crossCheck_iff]
    constructor
    · rintro ⟨c, hc, -, hforeign⟩
      exact ⟨bound, rfl, c.port, ⟨c, hc, rfl⟩, foreignBinding_iff.mp hforeign⟩
    · rintro ⟨bound', hbound, port, ⟨c, hc, rfl⟩, hfirst⟩
      cases hbound
      exact ⟨c, hc, List.not_mem_nil, foreignBinding_iff.mpr hfirst⟩

/-- An error of the live check, as a mark. -/
theorem held_iff : (∃ c ∈ next.flatMap extractPortClaims, HeldElsewhere next opts c) ↔
    ∃ port, (HazardKind.portBoundElsewhere, HazardSeverity.error, port) ∈
      liveHazards (analyzeCompose next opts) := by
  rw [← bound_error_iff]
  simp only [mem_liveHazards_iff_bound, List.mem_map]
  constructor
  · rintro ⟨h, hmem, herror⟩
    refine ⟨h.port, h, hmem, ?_⟩
    unfold Hazard.mark
    rw [boundHazards_kind hmem, herror]
  · rintro ⟨port, h, hmem, hmark⟩
    exact ⟨h, hmem, congrArg (fun m => m.2.1) hmark⟩

/-! ## One order and another -/

/-- Listeners that are judged alike are reported alike. -/
theorem Reordered.live (h : Reordered next next' opts opts') (hjudged : JudgedAlike next opts)
    {m : HazardKind × HazardSeverity × Option Nat}
    (hm : m ∈ liveHazards (analyzeCompose next opts)) :
    m ∈ liveHazards (analyzeCompose next' opts') := by
  obtain ⟨bound, hchecked, port, hclaimed, b, severity, hfirst, hverdict, rfl⟩ :=
    mem_liveHazards_iff.mp hm
  obtain ⟨bound', hchecked', hperm⟩ := h.checked hchecked
  obtain ⟨hb, rfl⟩ := firstOn_spec hfirst
  obtain ⟨b', hfirst'⟩ := firstOn_isSome (hperm.mem_iff.mpr hb)
  obtain ⟨hb', hport⟩ := firstOn_spec hfirst'
  refine mem_liveHazards_iff.mpr ⟨bound', hchecked', b.port, h.claimed.mpr hclaimed, b', severity,
    hfirst', ?_, rfl⟩
  rw [h.verdict, ← hverdict]
  exact (hjudged bound hchecked b hb b' (hperm.mem_iff.mp hb') hport.symm hclaimed).symm

theorem Reordered.fails (h : Reordered next next' opts opts') (hnext : (namesOf next).Nodup)
    (hjudged : JudgedAlike next opts) (hfails : (analyzeCompose next opts).ok = false) :
    (analyzeCompose next' opts').ok = false := by
  have hclaims : ∀ c, c ∈ next'.flatMap extractPortClaims ↔ c ∈ next.flatMap extractPortClaims := by
    intro c
    simp only [List.mem_flatMap, h.services.mem_iff]
  unfold analyzeCompose at hfails ⊢
  rw [analyzeClaims_fails] at hfails ⊢
  rcases hfails with ⟨g, hg, port, hhard⟩ | hpublishes | htouched | hheld
  · left
    obtain ⟨g', hg', hsame⟩ := groups_perm hnext h.services hg
    obtain ⟨⟨a, ha, b, hb, hne, ⟨c, hc, hrest⟩, ⟨d, hd, hrest'⟩⟩, hunhinted⟩ := hhard
    refine ⟨g', hg', port, ⟨a, (hsame.members a).mpr ha, b, (hsame.members b).mpr hb, hne,
      ⟨c, (hclaims c).mpr hc, hrest⟩, ⟨d, (hclaims d).mpr hd, hrest'⟩⟩, fun e he hmember => ?_⟩
    exact hunhinted e ((hclaims e).mp he) ((hsame.members _).mp hmember)
  · obtain ⟨g, hg, dep, hdep, hports⟩ := hpublishes
    obtain ⟨g', hg', hsame⟩ := groups_perm hnext h.services hg
    refine Or.inr (Or.inl ⟨g', hg', dep, (hsame.dependents dep).mpr hdep, ?_⟩)
    unfold publishes at hports ⊢
    rwa [serviceNamed_perm hnext h.services]
  · obtain ⟨before, hprev, g, hg, hdependents, provider, hprovider, hchanged⟩ := htouched
    obtain ⟨g', hg', hsame⟩ := groups_perm hnext h.services hg
    refine Or.inr (Or.inr (Or.inl ⟨before, h.prev.trans hprev, g', hg', ?_, provider,
      hsame.provider.trans hprovider, ?_⟩))
    · obtain ⟨dep, rest, hlist⟩ := List.exists_cons_of_ne_nil hdependents
      exact List.ne_nil_of_mem ((hsame.dependents dep).mpr (hlist ▸ List.mem_cons_self))
    · unfold providerTouched at hchanged ⊢
      rwa [serviceNamed_perm hnext h.services]
  · obtain ⟨port, hmark⟩ := held_iff.mp hheld
    exact Or.inr (Or.inr (Or.inr (held_iff.mpr ⟨port, h.live hjudged hmark⟩)))

variable (next) in
/-- A listener goes to the front. -/
theorem Reordered.front {bound : List BoundPort} (hchecked : opts.checked = some bound)
    {b : BoundPort} (hb : b ∈ bound) :
    Reordered next next opts { opts with bound := some (b :: bound.erase b) } ∧
      ({ opts with bound := some (b :: bound.erase b) } : AnalyzeOptions).checked =
        some (b :: bound.erase b) := by
  unfold AnalyzeOptions.checked at hchecked ⊢
  split at hchecked
  · rename_i hon
    refine ⟨⟨List.Perm.refl _, ?_, rfl⟩, if_pos hon⟩
    rw [hchecked]
    exact .some (List.perm_cons_erase hb).symm
  · cases hchecked

/-- When no order changes anything, the verdict on any listener decides what is reported
of a claimed port. -/
theorem OrderFree.verdict_iff (h : OrderFree next opts) {bound : List BoundPort}
    (hchecked : opts.checked = some bound) {b : BoundPort} (hb : b ∈ bound)
    (hclaimed : Claimed next b.port) {severity : HazardSeverity} :
    verdict (namesOf next) opts.toBoundPortAttribution b = some severity ↔
      (HazardKind.portBoundElsewhere, severity, some b.port) ∈
        liveHazards (analyzeCompose next opts) := by
  obtain ⟨hreordered, hfront⟩ := Reordered.front next hchecked hb
  have hfirst : firstOn (b :: bound.erase b) b.port = some b :=
    List.find?_cons_of_pos (beq_self_eq_true _)
  rw [← (h _ _ hreordered).2, mem_liveHazards_iff]
  constructor
  · intro hverdict
    exact ⟨_, hfront, b.port, hclaimed, b, severity, hfirst, hverdict, rfl⟩
  · rintro ⟨bound', hbound', port, -, b', severity', hfirst', hverdict, hmark⟩
    rw [hfront] at hbound'
    cases hbound'
    cases hmark
    rw [hfirst] at hfirst'
    cases hfirst'
    exact hverdict

theorem knownForeign_iff {b : BoundPort} : KnownForeign next opts b ↔
    verdict (namesOf next) opts.toBoundPortAttribution b = some .error := by
  unfold KnownForeign verdict
  cases named b.holder with
  | none =>
    cases isOwnInstance opts.toBoundPortAttribution b <;> simp [Option.isSome_iff_ne_none]
  | some h =>
    cases isOwnInstance opts.toBoundPortAttribution b <;> simp [Option.isSome_iff_ne_none]

/-- The order in which services and listeners are listed changes nothing, and known foreign
holders are reported, exactly when the listeners on each claimed port are judged alike. -/
theorem listener_order_iff (hnext : (namesOf next).Nodup) :
    OrderFree next opts ∧ ForeignReported next opts ↔ JudgedAlike next opts := by
  constructor
  · rintro ⟨hfree, -⟩ bound hchecked b hb b' hb' hport hclaimed
    refine Option.ext fun severity => ?_
    rw [hfree.verdict_iff hchecked hb hclaimed, hport]
    exact (hfree.verdict_iff hchecked hb' (hport ▸ hclaimed)).symm
  · intro hjudged
    have hfree : OrderFree next opts := by
      intro next' opts' h
      have hnext' : (namesOf next').Nodup := (h.services.map _).nodup_iff.mpr hnext
      have hjudged' := h.judgedAlike hjudged
      refine ⟨?_, fun m => ⟨h.symm.live hjudged', h.live hjudged⟩⟩
      rw [Bool.eq_iff_iff, ← Bool.not_eq_false, ← Bool.not_eq_false (b := (analyzeCompose next opts).ok)]
      exact not_congr ⟨h.symm.fails hnext' hjudged', h.fails hnext hjudged⟩
    refine ⟨hfree, fun bound hchecked b hb hclaimed hforeign => ?_⟩
    exact (hfree.verdict_iff hchecked hb hclaimed).mp (knownForeign_iff.mp hforeign)

/-! ## A port held twice -/

def webStack : ComposeModel :=
  [gatewayService "web".toList none ["8080".toList] []]

/-- The stack's own container on one address, and a process of the guest on another. -/
def webListeners : AnalyzeOptions where
  ownProjects := ["stack".toList]
  bound := some
    [⟨8080, some "docker-proxy".toList, some "stack-web-1".toList, some "stack".toList⟩,
      ⟨8080, some "nginx".toList, none, none⟩]
  boundPortsChecked := true

theorem listener_order_webStack :
    OrderFree webStack webListeners ∧ ForeignReported webStack webListeners ↔
      JudgedAlike webStack webListeners :=
  listener_order_iff (by decide)

/-- The second listener is not looked at. -/
theorem not_listener_order :
    ¬ ∀ (next : ComposeModel) (opts : AnalyzeOptions), (namesOf next).Nodup →
      OrderFree next opts ∧ ForeignReported next opts := by
  intro h
  have hreported := (h webStack webListeners (by decide)).2 _ rfl
    ⟨8080, some "nginx".toList, none, none⟩ (by decide)
    ⟨⟨"web".toList, 8080, .expose, "8080".toList⟩, by decide +kernel, rfl⟩
    ⟨fun n hn => by cases hn; decide, by decide, by decide⟩
  exact absurd hreported (by decide +kernel)

end HomelabMcp.Docker
