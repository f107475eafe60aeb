import HomelabMcp.Docker.Preflight

/-!
# When the preflight fails

The hazards that make a preflight fail, by what the file and the guest are like, and what
one more claim does to them.

- `analyzeClaims_fails`: a preflight fails for a dependent that publishes ports, a hard
  collision, a provider that was touched, or a port that someone else holds.
- `collisions_are_errors_iff`: when every hard collision makes it fail, and no further
  claim makes it pass.
-/

namespace HomelabMcp.Docker

open SlashPath Text KeyedList

variable {next : ComposeModel} {claims : List PortClaim} {opts : AnalyzeOptions}
  {g : NetnsGroup} {port : Nat}

/-! ## Collisions -/

theorem mem_memberClaims {c : PortClaim} :
    c ∈ memberClaims claims g ↔ c ∈ claims ∧ c.service ∈ g.members := by
  unfold memberClaims
  rw [List.mem_flatMap]
  constructor
  · rintro ⟨member, hmember, hc⟩
    obtain ⟨hclaims, heq⟩ := List.mem_filter.mp hc
    exact ⟨hclaims, beq_iff_eq.mp heq ▸ hmember⟩
  · rintro ⟨hclaims, hmember⟩
    exact ⟨c.service, hmember, List.mem_filter.mpr ⟨hclaims, beq_self_eq_true _⟩⟩

theorem mem_portClaims {c : PortClaim} :
    c ∈ portClaims claims g port ↔ c ∈ claims ∧ c.service ∈ g.members ∧ c.port = port := by
  unfold portClaims
  rw [List.mem_filter, mem_memberClaims, beq_iff_eq, and_assoc]

theorem mem_claimants {s : Str} :
    s ∈ claimants claims g port ↔
      s ∈ g.members ∧ ∃ c ∈ claims, c.service = s ∧ c.port = port := by
  unfold claimants
  rw [List.mem_eraseDups, List.mem_map]
  constructor
  · rintro ⟨c, hc, rfl⟩
    obtain ⟨hclaims, hmember, hport⟩ := mem_portClaims.mp hc
    exact ⟨hmember, c, hclaims, rfl, hport⟩
  · rintro ⟨hmember, c, hclaims, rfl, hport⟩
    exact ⟨c, mem_portClaims.mpr ⟨hclaims, hmember, hport⟩, rfl⟩

/-- A list without repetitions is long when it has two elements. -/
theorem two_le_length_iff {l : List Str} (h : l.Nodup) :
    2 ≤ l.length ↔ ∃ a ∈ l, ∃ b ∈ l, a ≠ b := by
  match l, h with
  | [], _ => exact iff_of_false (by simp) (by simp)
  | [a], _ =>
    refine iff_of_false (by simp) ?_
    rintro ⟨x, hx, y, hy, hne⟩
    exact hne ((List.mem_singleton.mp hx).trans (List.mem_singleton.mp hy).symm)
  | a :: b :: l, h =>
    refine iff_of_true (by simp) ⟨a, List.mem_cons_self, b, by simp, ?_⟩
    rintro rfl
    exact (List.nodup_cons.mp h).1 List.mem_cons_self

/-- Two members that claim one port are reported, with whoever else does. -/
theorem portCollision_mem {a b : Str} (ha : a ∈ claimants claims g port)
    (hb : b ∈ claimants claims g port) (hne : a ≠ b) :
    portCollision claims g port ∈ collisionHazards claims g := by
  obtain ⟨hamem, c, hc, rfl, hport⟩ := mem_claimants.mp ha
  obtain ⟨hbmem, -⟩ := mem_claimants.mp hb
  unfold collisionHazards
  rw [if_neg ?_]
  · refine List.mem_map_of_mem (List.mem_filter.mpr ⟨?_, decide_eq_true
      ((two_le_length_iff (nodup_eraseDups _)).mpr ⟨_, ha, _, hb, hne⟩)⟩)
    exact List.mem_eraseDups.mpr
      (List.mem_map.mpr ⟨c, mem_memberClaims.mpr ⟨hc, hamem⟩, hport⟩)
  · -- A group with two members is no group of one.
    intro hlt
    match hmembers : g.members with
    | [] =>
      rw [hmembers] at hamem
      cases hamem
    | [m] =>
      rw [hmembers] at hamem hbmem
      exact hne ((List.mem_singleton.mp hamem).trans (List.mem_singleton.mp hbmem).symm)
    | _ :: _ :: l =>
      rw [hmembers, List.length_cons, List.length_cons] at hlt
      omega

/-- Two members of the group claim the port, each through `ports:` or `expose:`. -/
def HardClaimants (claims : List PortClaim) (g : NetnsGroup) (port : Nat) : Prop :=
  ∃ a ∈ g.members, ∃ b ∈ g.members, a ≠ b ∧
    (∃ c ∈ claims, c.service = a ∧ c.port = port ∧ c.source ≠ .envHint) ∧
    ∃ c ∈ claims, c.service = b ∧ c.port = port ∧ c.source ≠ .envHint

/-- No member of the group claims the port through a hint. -/
def Unhinted (claims : List PortClaim) (g : NetnsGroup) (port : Nat) : Prop :=
  ∀ c ∈ claims, c.service ∈ g.members → c.port = port → c.source ≠ .envHint

/-- Two members claim the port, and all that do claim it through `ports:` or `expose:`. -/
def HardCollision (claims : List PortClaim) (g : NetnsGroup) (port : Nat) : Prop :=
  HardClaimants claims g port ∧ Unhinted claims g port

theorem anyEnvHint_eq_false :
    anyEnvHint (portClaims claims g port) = false ↔ Unhinted claims g port := by
  unfold anyEnvHint
  rw [List.any_eq_false]
  constructor
  · intro h c hc hmember hport heq
    exact h c (mem_portClaims.mpr ⟨hc, hmember, hport⟩) (beq_iff_eq.mpr heq)
  · intro h c hc heq
    obtain ⟨hclaims, hmember, hport⟩ := mem_portClaims.mp hc
    exact h c hclaims hmember hport (beq_iff_eq.mp heq)

/-- What is reported of a group as a collision is an error when it is hard. -/
theorem collision_error_iff :
    (∃ h ∈ collisionHazards claims g, h.severity = .error) ↔
      ∃ port, HardCollision claims g port := by
  constructor
  · rintro ⟨h, hmem, herror⟩
    unfold collisionHazards at hmem
    split at hmem
    · cases hmem
    obtain ⟨port, hport, rfl⟩ := List.mem_map.mp hmem
    obtain ⟨-, hlength⟩ := List.mem_filter.mp hport
    have hunhinted : Unhinted claims g port := by
      rw [← anyEnvHint_eq_false]
      by_contra hhint
      rw [Bool.not_eq_false] at hhint
      have hseverity : (portCollision claims g port).severity = .warn := if_pos hhint
      rw [hseverity] at herror
      cases herror
    obtain ⟨a, ha, b, hb, hne⟩ :=
      (two_le_length_iff (nodup_eraseDups _)).mp (of_decide_eq_true hlength)
    obtain ⟨hamem, c, hc, rfl, hcport⟩ := mem_claimants.mp ha
    obtain ⟨hbmem, d, hd, rfl, hdport⟩ := mem_claimants.mp hb
    exact ⟨port, ⟨c.service, hamem, d.service, hbmem, hne,
      ⟨c, hc, rfl, hcport, hunhinted c hc hamem hcport⟩,
      ⟨d, hd, rfl, hdport, hunhinted d hd hbmem hdport⟩⟩, hunhinted⟩
  · rintro ⟨port, ⟨a, ha, b, hb, hne, ⟨c, hc, rfl, hcport, -⟩, ⟨d, hd, rfl, hdport, -⟩⟩, hunhinted⟩
    have hcmem := mem_claimants.mpr ⟨ha, c, hc, rfl, hcport⟩
    have hdmem := mem_claimants.mpr ⟨hb, d, hd, rfl, hdport⟩
    refine ⟨portCollision claims g port, portCollision_mem hcmem hdmem hne, ?_⟩
    show (if anyEnvHint (portClaims claims g port) then HazardSeverity.warn else .error) = .error
    rw [anyEnvHint_eq_false.mpr hunhinted]
    rfl

/-! ## The other errors -/

/-- A dependent publishes ports. -/
def DependentPublishes (next : ComposeModel) : Prop :=
  ∃ g ∈ groupByNetns next, ∃ dep ∈ g.dependents, publishes next dep = true

/-- A provider with dependents differs from the previous file, as far as is compared. -/
def ProviderTouched (next : ComposeModel) (opts : AnalyzeOptions) : Prop :=
  ∃ before, opts.prev = some before ∧ ∃ g ∈ groupByNetns next, g.dependents ≠ [] ∧
    ∃ provider, g.provider = some provider ∧ providerTouched next before provider = true

/-- Someone is known to hold the port, who is neither a service of the file nor a running
instance of it. -/
def HeldElsewhere (next : ComposeModel) (opts : AnalyzeOptions) (c : PortClaim) : Prop :=
  ∃ bound b, opts.checked = some bound ∧
    foreignBinding bound (next.map fun s => s.name) c = some b ∧
    isOwnInstance opts.toBoundPortAttribution b = false ∧ (named (holderOf b)).isSome = true

/-- Whether a port is held elsewhere is the same for each claim to it. -/
theorem HeldElsewhere.congr {c d : PortClaim} (h : HeldElsewhere next opts c)
    (hport : d.port = c.port) : HeldElsewhere next opts d := by
  obtain ⟨bound, b, hchecked, hforeign, hown, hholder⟩ := h
  refine ⟨bound, b, hchecked, ?_, hown, hholder⟩
  unfold foreignBinding at hforeign ⊢
  rw [hport]
  exact hforeign

theorem publish_error_iff :
    (∃ h ∈ (groupByNetns next).flatMap (publishHazards next), h.severity = .error) ↔
      DependentPublishes next := by
  constructor
  · rintro ⟨h, hmem, -⟩
    obtain ⟨g, hg, hmem⟩ := List.mem_flatMap.mp hmem
    obtain ⟨dep, hdep, -⟩ := List.mem_map.mp hmem
    obtain ⟨hdependent, hpublishes⟩ := List.mem_filter.mp hdep
    exact ⟨g, hg, dep, hdependent, hpublishes⟩
  · rintro ⟨g, hg, dep, hdependent, hpublishes⟩
    exact ⟨dependentPublishes g dep, List.mem_flatMap.mpr
      ⟨g, hg, List.mem_map_of_mem (List.mem_filter.mpr ⟨hdependent, hpublishes⟩)⟩, rfl⟩

theorem mem_providersWithDependents {groups : List NetnsGroup} :
    g ∈ providersWithDependents groups ↔
      g ∈ groups ∧ g.dependents ≠ [] ∧ ∃ provider, g.provider = some provider := by
  unfold providersWithDependents
  rw [List.mem_filter, Bool.and_eq_true, decide_eq_true_iff, Option.isSome_iff_exists]
  exact and_congr_right fun _ => and_comm

theorem recreate_error_iff :
    (∃ h ∈ detectNetnsRecreate next opts.prev, h.severity = .error) ↔
      ProviderTouched next opts := by
  unfold detectNetnsRecreate
  constructor
  · rintro ⟨h, hmem, herror⟩
    obtain ⟨g, hg, hhazard⟩ := List.mem_filterMap.mp hmem
    obtain ⟨hgroup, hdependents, provider, hprovider⟩ := mem_providersWithDependents.mp hg
    unfold recreateHazard at hhazard
    rw [hprovider] at hhazard
    cases hprev : opts.prev with
    | none =>
      rw [hprev] at hhazard
      cases hhazard
      cases herror
    | some before =>
      rw [hprev] at hhazard
      dsimp only at hhazard
      split at hhazard
      · next htouched => exact ⟨before, hprev, g, hgroup, hdependents, provider, hprovider, htouched⟩
      · cases hhazard
  · rintro ⟨before, hprev, g, hgroup, hdependents, provider, hprovider, htouched⟩
    refine ⟨recreateError g provider, List.mem_filterMap.mpr
      ⟨g, mem_providersWithDependents.mpr ⟨hgroup, hdependents, provider, hprovider⟩, ?_⟩, rfl⟩
    unfold recreateHazard
    rw [hprovider, hprev]
    exact if_pos htouched

/-- What a hazard is about, without its texts. -/
def Hazard.mark (h : Hazard) : HazardKind × HazardSeverity × Option Nat :=
  (h.kind, h.severity, h.port)

theorem boundElsewhere_mark {attribution : BoundPortAttribution} {c : PortClaim} {b : BoundPort} :
    (boundElsewhere attribution c b).mark = (.portBoundElsewhere,
      if isOwnInstance attribution b then .info
      else if (named (holderOf b)).isSome then .error else .warn, some c.port) := by
  unfold boundElsewhere
  split
  · rfl
  · rfl

/-- Each port that is claimed and bound is reported, once. -/
theorem mem_crossCheck_iff {bound : List BoundPort} {ownNames : List Str}
    {attribution : BoundPortAttribution} {seen : List Nat}
    {m : HazardKind × HazardSeverity × Option Nat} :
    m ∈ (crossCheck bound ownNames attribution seen claims).map Hazard.mark ↔
      ∃ c ∈ claims, c.port ∉ seen ∧ ∃ b, foreignBinding bound ownNames c = some b ∧
        m = (boundElsewhere attribution c b).mark := by
  induction claims generalizing seen with
  | nil => simp [crossCheck]
  | cons c claims ih =>
    unfold crossCheck
    cases hforeign : foreignBinding bound ownNames c with
    | none =>
      simp only [List.mem_cons, exists_eq_or_imp, hforeign]
      refine (@ih seen).trans ?_
      simp
    | some b =>
      dsimp only
      split
      · next hseen =>
        refine (@ih seen).trans ?_
        simp only [List.mem_cons, exists_eq_or_imp]
        constructor
        · exact Or.inr
        · rintro (⟨hnot, -⟩ | h)
          · exact absurd hseen hnot
          · exact h
      · next hseen =>
        rw [List.map_cons, List.mem_cons]
        simp only [List.mem_cons, exists_eq_or_imp, hforeign]
        refine (or_congr_right (@ih (c.port :: seen))).trans ?_
        constructor
        · rintro (hm | ⟨d, hd, hdseen, hrest⟩)
          · exact Or.inl ⟨hseen, b, rfl, hm⟩
          · rw [List.mem_cons, not_or] at hdseen
            exact Or.inr ⟨d, hd, hdseen.2, hrest⟩
        · rintro (⟨-, b', hb', hm⟩ | ⟨d, hd, hdseen, b', hb', hm⟩)
          · cases hb'
            exact Or.inl hm
          · -- A later claim to the same port has the same binding.
            by_cases hport : d.port = c.port
            · left
              unfold foreignBinding at hforeign hb'
              rw [hport, hforeign] at hb'
              cases hb'
              rw [hm, boundElsewhere_mark, boundElsewhere_mark, hport]
            · refine Or.inr ⟨d, hd, ?_, b', hb', hm⟩
              rw [List.mem_cons, not_or]
              exact ⟨hport, hdseen⟩

/-- Which claims are reported as bound elsewhere by an error. -/
theorem crossCheck_error_iff {bound : List BoundPort} {ownNames : List Str}
    {attribution : BoundPortAttribution} {seen : List Nat} :
    (∃ h ∈ crossCheck bound ownNames attribution seen claims, h.severity = .error) ↔
      ∃ c ∈ claims, c.port ∉ seen ∧ ∃ b, foreignBinding bound ownNames c = some b ∧
        isOwnInstance attribution b = false ∧ (named (holderOf b)).isSome = true := by
  have hseverity : ∀ (c : PortClaim) (b : BoundPort),
      (boundElsewhere attribution c b).mark.2.1 = .error ↔
        isOwnInstance attribution b = false ∧ (named (holderOf b)).isSome = true := by
    intro c b
    rw [boundElsewhere_mark]
    cases isOwnInstance attribution b <;> cases (named (holderOf b)).isSome <;> simp
  constructor
  · rintro ⟨h, hmem, herror⟩
    obtain ⟨c, hc, hseen, b, hforeign, hmark⟩ :=
      mem_crossCheck_iff.mp (List.mem_map_of_mem hmem)
    exact ⟨c, hc, hseen, b, hforeign, (hseverity c b).mp (hmark ▸ herror)⟩
  · rintro ⟨c, hc, hseen, b, hforeign, hknown⟩
    obtain ⟨h, hmem, hmark⟩ :=
      List.mem_map.mp (mem_crossCheck_iff.mpr ⟨c, hc, hseen, b, hforeign, rfl⟩)
    exact ⟨h, hmem, (congrArg (fun m => m.2.1) hmark).trans ((hseverity c b).mpr hknown)⟩

theorem bound_error_iff :
    (∃ h ∈ boundHazards next claims opts, h.severity = .error) ↔
      ∃ c ∈ claims, HeldElsewhere next opts c := by
  unfold HeldElsewhere boundHazards
  cases hchecked : opts.checked with
  | none => simp
  | some bound =>
    unfold crossCheckBoundPorts
    dsimp only
    rw [crossCheck_error_iff]
    constructor
    · rintro ⟨c, hc, -, b, hforeign, hown, hholder⟩
      exact ⟨c, hc, bound, b, rfl, hforeign, hown, hholder⟩
    · rintro ⟨c, hc, bound', b, hbound, hforeign, hown, hholder⟩
      cases hbound
      exact ⟨c, hc, List.not_mem_nil, b, hforeign, hown, hholder⟩

/-! ## The verdict -/

/-- An error that has nothing to do with collisions. -/
def OtherError (next : ComposeModel) (claims : List PortClaim) (opts : AnalyzeOptions) : Prop :=
  DependentPublishes next ∨ ProviderTouched next opts ∨ ∃ c ∈ claims, HeldElsewhere next opts c

theorem analyzeClaims_fails :
    (analyzeClaims next claims opts).ok = false ↔
      (∃ g ∈ groupByNetns next, ∃ port, HardCollision claims g port) ∨
        OtherError next claims opts := by
  have hany : (analyzeClaims next claims opts).ok = false ↔
      ∃ h ∈ hazardsOf next claims opts, h.severity = .error := by
    show (!(hazardsOf next claims opts).any fun h => h.severity == .error) = false ↔ _
    rw [Bool.not_eq_false', List.any_eq_true]
    simp only [beq_iff_eq]
  have hcollisions :
      (∃ h ∈ (groupByNetns next).flatMap (collisionHazards claims), h.severity = .error) ↔
        ∃ g ∈ groupByNetns next, ∃ port, HardCollision claims g port := by
    constructor
    · rintro ⟨h, hmem, herror⟩
      obtain ⟨g, hg, hmem⟩ := List.mem_flatMap.mp hmem
      exact ⟨g, hg, collision_error_iff.mp ⟨h, hmem, herror⟩⟩
    · rintro ⟨g, hg, hcollision⟩
      obtain ⟨h, hmem, herror⟩ := collision_error_iff.mpr hcollision
      exact ⟨h, List.mem_flatMap.mpr ⟨g, hg, hmem⟩, herror⟩
  rw [hany]
  unfold hazardsOf detectPortCollisions OtherError
  rw [← publish_error_iff, ← recreate_error_iff, ← bound_error_iff, ← hcollisions]
  simp only [List.mem_append, or_and_right, exists_or]
  constructor
  · rintro (((h | h) | h) | h)
    · exact Or.inr (Or.inl h)
    · exact Or.inl h
    · exact Or.inr (Or.inr (Or.inl h))
    · exact Or.inr (Or.inr (Or.inr h))
  · rintro (h | h | h | h)
    · exact Or.inl (Or.inl (Or.inr h))
    · exact Or.inl (Or.inl (Or.inl h))
    · exact Or.inl (Or.inr h)
    · exact Or.inr h

/-! ## One more claim -/

section
variable {claims' : List PortClaim} {c : PortClaim}

theorem HardClaimants.mono (h : HardClaimants claims g port) (hsub : claims ⊆ claims') :
    HardClaimants claims' g port := by
  obtain ⟨a, ha, b, hb, hne, ⟨c, hc, hcrest⟩, ⟨d, hd, hdrest⟩⟩ := h
  exact ⟨a, ha, b, hb, hne, ⟨c, hsub hc, hcrest⟩, ⟨d, hsub hd, hdrest⟩⟩

theorem OtherError.mono (h : OtherError next claims opts) (hsub : claims ⊆ claims') :
    OtherError next claims' opts := by
  rcases h with h | h | ⟨c, hc, hheld⟩
  · exact Or.inl h
  · exact Or.inr (Or.inl h)
  · exact Or.inr (Or.inr ⟨c, hsub hc, hheld⟩)

/-- A claim to another port, or from outside the group, leaves a collision hard. -/
theorem HardCollision.add (h : HardCollision claims g port) (hsub : claims ⊆ claims')
    (hnew : ∀ d ∈ claims', d = c ∨ d ∈ claims) (haway : port ≠ c.port ∨ c.service ∉ g.members) :
    HardCollision claims' g port := by
  refine ⟨h.1.mono hsub, fun d hd hmember hport => ?_⟩
  rcases hnew d hd with rfl | hold
  · rcases haway with haway | haway
    · exact absurd hport.symm haway
    · exact absurd hmember haway
  · exact h.2 d hold hmember hport

/-- A collision that is hard beside a hint was hard without it, and is not about the hint. -/
theorem HardCollision.without_hint (h : HardCollision claims' g port) (hhint : c.source = .envHint)
    (hsub : claims ⊆ claims') (hmem : c ∈ claims') (hnew : ∀ d ∈ claims', d = c ∨ d ∈ claims) :
    HardCollision claims g port ∧ (port ≠ c.port ∨ c.service ∉ g.members) := by
  have hold : ∀ d ∈ claims', d.source ≠ .envHint → d ∈ claims := by
    intro d hd hsource
    rcases hnew d hd with rfl | hmem
    · exact absurd hhint hsource
    · exact hmem
  obtain ⟨⟨a, ha, b, hb, hne, ⟨d, hd, hda, hdport, hdsource⟩, ⟨e, he, heb, heport, hesource⟩⟩,
    hunhinted⟩ := h
  refine ⟨⟨⟨a, ha, b, hb, hne, ⟨d, hold d hd hdsource, hda, hdport, hdsource⟩,
    ⟨e, hold e he hesource, heb, heport, hesource⟩⟩,
    fun f hf => hunhinted f (hsub hf)⟩, ?_⟩
  by_contra haway
  rw [not_or, not_not, not_not] at haway
  exact hunhinted c hmem haway.2 haway.1.symm hhint

end

/-! ## Whether collisions are errors -/

/-- Every two members that claim a port through `ports:` or `expose:` make the preflight
fail, and with one more claim, of any service, it fails if it did before. -/
def CollisionsAreErrors (next : ComposeModel) (opts : AnalyzeOptions) : Prop :=
  (∀ g ∈ groupByNetns next, ∀ port, HardClaimants (next.flatMap extractPortClaims) g port →
    (analyzeCompose next opts).ok = false) ∧
  ∀ c : PortClaim, (c.service ∈ next.map fun s => s.name) →
    ∀ claims, claims.Perm (c :: next.flatMap extractPortClaims) →
      (analyzeCompose next opts).ok = false → (analyzeClaims next claims opts).ok = false

/-- Collisions are errors exactly when the preflight fails for another reason, or no two
members claim one port through `ports:` or `expose:`, or there are collisions without a
hint that are not all for one port and with one service in the group. -/
theorem collisions_are_errors_iff (next : ComposeModel) (opts : AnalyzeOptions) :
    CollisionsAreErrors next opts ↔
      OtherError next (next.flatMap extractPortClaims) opts ∨
      (∀ g ∈ groupByNetns next, ∀ port,
        ¬HardClaimants (next.flatMap extractPortClaims) g port) ∨
      (∃ g ∈ groupByNetns next, ∃ port,
        HardCollision (next.flatMap extractPortClaims) g port) ∧
      ∀ service ∈ next.map (fun s => s.name), ∀ port, ∃ g ∈ groupByNetns next, ∃ port',
        HardCollision (next.flatMap extractPortClaims) g port' ∧
          (port' ≠ port ∨ service ∉ g.members) := by
  unfold CollisionsAreErrors analyzeCompose
  generalize next.flatMap extractPortClaims = claims
  constructor
  · rintro ⟨hfirst, hsecond⟩
    by_cases hother : OtherError next claims opts
    · exact Or.inl hother
    by_cases hnone : ∀ g ∈ groupByNetns next, ∀ port, ¬HardClaimants claims g port
    · exact Or.inr (Or.inl hnone)
    refine Or.inr (Or.inr ?_)
    push Not at hnone
    obtain ⟨g, hg, port, hclaimants⟩ := hnone
    have hfails := hfirst g hg port hclaimants
    have hcollision := (analyzeClaims_fails.mp hfails).resolve_right hother
    refine ⟨hcollision, fun service hservice port => ?_⟩
    by_contra hall
    push Not at hall
    -- One hint of this service for this port silences all of them.
    let hint : PortClaim := ⟨service, port, .envHint, []⟩
    have hnew : ∀ d ∈ hint :: claims, d = hint ∨ d ∈ claims := fun d => List.mem_cons.mp
    have hstill := hsecond hint hservice (hint :: claims) (List.Perm.refl _) hfails
    rcases analyzeClaims_fails.mp hstill with ⟨g', hg', port', hhard⟩ | hother'
    · obtain ⟨hold, haway⟩ := hhard.without_hint rfl (List.subset_cons_self hint claims)
        List.mem_cons_self hnew
      obtain ⟨hport, hmember⟩ := hall g' hg' port' hold
      exact haway.elim (fun hne => hne hport) fun hnot => hnot hmember
    · rcases hother' with h | h | ⟨d, hd, hheld⟩
      · exact hother (Or.inl h)
      · exact hother (Or.inr (Or.inl h))
      · rcases hnew d hd with rfl | hd
        · obtain ⟨g', hg', port', hhard⟩ := hcollision
          obtain ⟨rfl, -⟩ := hall g' hg' port' hhard
          obtain ⟨⟨a, -, b, -, -, ⟨e, he, -, heport, -⟩, -⟩, -⟩ := hhard
          exact hother (Or.inr (Or.inr ⟨e, he, hheld.congr heport⟩))
        · exact hother (Or.inr (Or.inr ⟨d, hd, hheld⟩))
  · intro hcondition
    have hkept : ∀ c : PortClaim, ∀ claims', claims'.Perm (c :: claims) →
        claims ⊆ claims' ∧ ∀ d ∈ claims', d = c ∨ d ∈ claims := by
      intro c claims' hperm
      exact ⟨fun d hd => hperm.mem_iff.mpr (List.mem_cons_of_mem c hd),
        fun d hd => List.mem_cons.mp (hperm.mem_iff.mp hd)⟩
    rcases hcondition with hother | hnone | ⟨hcollision, haway⟩
    · refine ⟨fun _ _ _ _ => analyzeClaims_fails.mpr (Or.inr hother), ?_⟩
      intro c _ claims' hperm _
      exact analyzeClaims_fails.mpr (Or.inr (hother.mono (hkept c claims' hperm).1))
    · refine ⟨fun g hg port hclaimants => absurd hclaimants (hnone g hg port), ?_⟩
      intro c _ claims' hperm hfails
      rcases analyzeClaims_fails.mp hfails with ⟨g, hg, port, hhard⟩ | hother
      · exact absurd hhard.1 (hnone g hg port)
      · exact analyzeClaims_fails.mpr (Or.inr (hother.mono (hkept c claims' hperm).1))
    · refine ⟨fun _ _ _ _ => analyzeClaims_fails.mpr (Or.inl hcollision), ?_⟩
      intro c hservice claims' hperm _
      obtain ⟨hsub, hnew⟩ := hkept c claims' hperm
      obtain ⟨g, hg, port, hhard, hport⟩ := haway c.service hservice c.port
      exact analyzeClaims_fails.mpr (Or.inl ⟨g, hg, port, hhard.add hsub hnew hport⟩)

/-! ## A hint beside two exposed ports -/

/-- A service of the namespace of `gw`. -/
def gatewayService (name : Str) (mode : Option Str) (expose : List Str)
    (environment : List (Str × Str)) : ComposeService where
  name := name
  image := some name
  networkMode := mode
  ports := []
  expose := expose
  environment := environment
  rawKeys := ["image".toList]

def gatewayStack : ComposeModel :=
  let mode := some "service:gw".toList
  [gatewayService "gw".toList none [] [],
    gatewayService "a".toList mode ["8080".toList] [],
    gatewayService "b".toList mode ["8080".toList] [("PORT".toList, "8080".toList)]]

/-- Two services expose port 8080 in one namespace, and the preflight passes. -/
theorem not_collisions_are_errors : ¬CollisionsAreErrors gatewayStack {} := by
  rintro ⟨hfirst, -⟩
  have hok : (analyzeCompose gatewayStack {}).ok = true := by decide +kernel
  have hgroup : ⟨"gw".toList, some "gw".toList, ["gw".toList, "a".toList, "b".toList],
      ["a".toList, "b".toList], false⟩ ∈ groupByNetns gatewayStack := by decide +kernel
  rw [hfirst _ hgroup 8080 ?_] at hok
  · cases hok
  · refine ⟨"a".toList, by decide, "b".toList, by decide, by decide, ?_, ?_⟩
    · exact ⟨⟨"a".toList, 8080, .expose, "8080".toList⟩, by decide +kernel, rfl, rfl, nofun⟩
    · exact ⟨⟨"b".toList, 8080, .expose, "8080".toList⟩, by decide +kernel, rfl, rfl, nofun⟩

end HomelabMcp.Docker
