import HomelabMcp.Docker.DefinitionChange
import HomelabMcp.Docker.NetnsGroups

/-!
# Changed providers

The recreate hazards of a file and its previous version, told from the definitions of the
providers in the two.

- `recreate_reported_iff`: for which providers a recreate is reported.
- `changes_reported_iff`: when the changed providers are reported, and no others.
-/

namespace HomelabMcp.Docker

open SlashPath Text KeyedList SortKey Json

variable {parseYaml : Str → Except Str Json} {text before after : Str}
  {model prev next : ComposeModel} {opts : AnalyzeOptions} {provider : Str}

/-! ## Definitions in a file -/

/-- The definition of a service in a file. -/
def definitionOf (parseYaml : Str → Except Str Json) (text name : Str) : Option Json :=
  match parseYaml text with
  | .ok doc =>
    match doc.get? "services".toList with
    | some (.obj services) => (Json.obj services).get? name
    | _ => none
  | .error _ => none

/-- A service is read off its definition. -/
theorem serviceNamed_parseCompose (h : parseCompose parseYaml text = .ok model) (name : Str) :
    serviceNamed model name = (definitionOf parseYaml text name).map (toService name) := by
  unfold parseCompose at h
  unfold definitionOf
  split at h
  · cases h
  · next hdoc =>
    cases h
    rw [hdoc]
    rfl
  · next members hdoc =>
    rw [hdoc]
    dsimp only
    split at h
    · next hnone =>
      cases h
      rw [hnone]
      rfl
    · next hnull =>
      cases h
      rw [hnull]
      rfl
    · next services hservices =>
      cases h
      rw [hservices]
      dsimp only
      cases hget : (Json.obj services).get? name with
      | none =>
        -- Nothing of the model has a name that the object does not list.
        refine List.find?_eq_none.mpr fun s hs => ?_
        obtain ⟨n, hn, rfl⟩ := List.mem_map.mp (List.mem_reverse.mp hs)
        intro hname
        have heq : n = name := by simpa [toService] using hname
        rw [heq, mem_keysOf, hget] at hn
        cases hn
      | some definition =>
        have hmem : name ∈ keysOf (.obj services) := by
          rw [mem_keysOf, hget]
          rfl
        unfold serviceNamed
        rw [← List.map_reverse, List.find?_map]
        have hcomp : (fun s : ComposeService => s.name == name) ∘ (fun n : Str =>
            toService n (((Json.obj services).get? n).getD .null)) = fun n => n == name := rfl
        have hfind : (keysOf (.obj services)).reverse.find? (fun n => n == name) = some name := by
          cases hfound : (keysOf (.obj services)).reverse.find? (fun n => n == name) with
          | none =>
            have hall := List.find?_eq_none.mp hfound name (List.mem_reverse.mpr hmem)
            simp at hall
          | some n =>
            have hname := List.find?_some (p := fun n => n == name) hfound
            rw [beq_iff_eq.mp hname]
        rw [hcomp, hfind]
        simp [hget]
    · cases h
  · cases h

theorem serviceNamed_isSome {name : Str} :
    (serviceNamed model name).isSome = true ↔ name ∈ model.map fun s => s.name := by
  unfold serviceNamed
  rw [List.find?_isSome, List.mem_map]
  simp

/-! ## What is reported -/

/-- The preflight reports that the provider must be recreated. -/
def RecreateReported (prev next : ComposeModel) (opts : AnalyzeOptions) (provider : Str) : Prop :=
  ∃ h ∈ (analyzeCompose next { opts with prev := some prev }).hazards,
    h.kind = .netnsRecreate ∧ h.severity = .error ∧ h.services.head? = some provider

/-- Another service of the file uses the namespace of the provider. -/
def UsedByAnother (model : ComposeModel) (provider : Str) : Prop :=
  (provider ∈ model.map fun s => s.name) ∧
    ∃ svc ∈ model, svc.name ≠ provider ∧ serviceLink svc.networkMode = some provider

theorem boundElsewhere_kind {attribution : BoundPortAttribution} {c : PortClaim} {b : BoundPort} :
    (boundElsewhere attribution c b).kind = .portBoundElsewhere := by
  unfold boundElsewhere
  split
  · rfl
  · rfl

theorem crossCheck_kind {bound : List BoundPort} {ownNames : List Str}
    {attribution : BoundPortAttribution} {seen : List Nat} {claims : List PortClaim} {h : Hazard}
    (hmem : h ∈ crossCheck bound ownNames attribution seen claims) :
    h.kind = .portBoundElsewhere := by
  induction claims generalizing seen with
  | nil => cases hmem
  | cons c claims ih =>
    unfold crossCheck at hmem
    split at hmem
    · exact ih hmem
    · split at hmem
      · exact ih hmem
      · rcases List.mem_cons.mp hmem with rfl | hmem
        · exact boundElsewhere_kind
        · exact ih hmem

/-- Recreates are reported by the check for them. -/
theorem mem_hazardsOf_recreate {claims : List PortClaim} {h : Hazard}
    (hkind : h.kind = .netnsRecreate) :
    h ∈ hazardsOf next claims opts ↔ h ∈ detectNetnsRecreate next opts.prev := by
  unfold hazardsOf
  rw [List.mem_append, List.mem_append]
  constructor
  · rintro ((hmem | hmem) | hmem)
    · rcases List.mem_append.mp hmem with hmem | hmem
      · obtain ⟨g, -, hmem⟩ := List.mem_flatMap.mp hmem
        obtain ⟨dep, -, rfl⟩ := List.mem_map.mp hmem
        cases hkind
      · obtain ⟨g, -, hmem⟩ := List.mem_flatMap.mp hmem
        unfold collisionHazards at hmem
        split at hmem
        · cases hmem
        · obtain ⟨port, -, rfl⟩ := List.mem_map.mp hmem
          cases hkind
    · exact hmem
    · unfold boundHazards at hmem
      split at hmem
      · rw [crossCheck_kind hmem] at hkind
        cases hkind
      · cases hmem
  · intro hmem
    exact Or.inl (Or.inr hmem)

/-- The group of a service that another one uses. -/
theorem UsedByAnother.group (h : UsedByAnother model provider)
    (hmodel : (model.map fun s => s.name).Nodup) :
    ∃ g ∈ groupByNetns model, g.dependents ≠ [] ∧ g.provider = some provider := by
  obtain ⟨hname, svc, hsvc, -, hlink⟩ := h
  have howner : netnsOwner svc.networkMode = some provider := serviceLink_owner hlink
  refine ⟨_, (mem_groupByNetns hmodel).mpr ⟨svc, hsvc, rfl⟩, ?_, ?_⟩
  · rw [addProvider_dependents, namespaceKey_of_owner howner]
    refine List.ne_nil_of_mem (a := svc.name) (List.mem_map_of_mem ?_)
    exact List.mem_filter.mpr ⟨hsvc, decide_eq_true howner⟩
  · rw [addProvider_provider, namespaceKey_of_owner howner]
    exact if_pos hname

/-- A recreate is reported of the used providers that were touched. -/
theorem recreate_reported_iff (hnext : (next.map fun s => s.name).Nodup)
    (hused : UsedByAnother next provider) :
    RecreateReported prev next opts provider ↔ providerTouched next prev provider = true := by
  unfold RecreateReported
  constructor
  · rintro ⟨h, hmem, hkind, herror, hhead⟩
    have hmem : h ∈ detectNetnsRecreate next (some prev) := (mem_hazardsOf_recreate hkind).mp hmem
    obtain ⟨g, -, hhazard⟩ := List.mem_filterMap.mp hmem
    unfold recreateHazard at hhazard
    split at hhazard
    · cases hhazard
    · next p before _ hprev =>
      cases hprev
      split at hhazard
      · next htouched =>
        cases hhazard
        cases hhead
        exact htouched
      · cases hhazard
    · next hprev => cases hprev
  · intro htouched
    obtain ⟨g, hg, hdependents, hprovider⟩ := hused.group hnext
    refine ⟨recreateError g provider, (mem_hazardsOf_recreate rfl).mpr ?_, rfl, rfl, rfl⟩
    refine List.mem_filterMap.mpr
      ⟨g, mem_providersWithDependents.mpr ⟨hg, hdependents, provider, hprovider⟩, ?_⟩
    unfold recreateHazard
    rw [hprovider]
    exact if_pos htouched

/-- A provider is touched when it is new or its definition changed in a way that counts. -/
theorem providerTouched_iff (hprev : parseCompose parseYaml before = .ok prev)
    (hnext : parseCompose parseYaml after = .ok next) {new : Json}
    (hnew : definitionOf parseYaml after provider = some new) :
    providerTouched next prev provider = true ↔
      ∀ old, definitionOf parseYaml before provider = some old → ChangeCounts old new := by
  unfold providerTouched
  rw [serviceNamed_parseCompose hprev, serviceNamed_parseCompose hnext, hnew]
  cases definitionOf parseYaml before provider with
  | none => exact iff_of_true rfl nofun
  | some old =>
    refine providerChanged_iff.trans ⟨?_, fun h => h old rfl⟩
    rintro h _ ⟨⟩
    exact h

/-! ## Whether changes are reported -/

/-- Every used provider whose definition is not the same in the two files is reported, and
none whose definition is. -/
def ChangesReported (parseYaml : Str → Except Str Json) (before after : Str)
    (prev next : ComposeModel) (opts : AnalyzeOptions) : Prop :=
  ∀ provider, UsedByAnother next provider →
    (¬Option.Rel SameValue (definitionOf parseYaml before provider)
        (definitionOf parseYaml after provider) → RecreateReported prev next opts provider) ∧
    (Option.Rel SameValue (definitionOf parseYaml before provider)
        (definitionOf parseYaml after provider) → ¬RecreateReported prev next opts provider)

/-- Changes are reported exactly when each used provider that both files define is the same
and has its variables in the same order, or has a change that counts. -/
theorem changes_reported_iff (hprev : parseCompose parseYaml before = .ok prev)
    (hnext : parseCompose parseYaml after = .ok next) (opts : AnalyzeOptions) :
    ChangesReported parseYaml before after prev next opts ↔
      ∀ provider, UsedByAnother next provider → ∀ old new,
        definitionOf parseYaml before provider = some old →
        definitionOf parseYaml after provider = some new →
          SameValue old new ∧ variableOrder (old.get? "environment".toList) =
            variableOrder (new.get? "environment".toList) ∨
          ¬SameValue old new ∧ ChangeCounts old new := by
  refine forall_congr' fun provider => imp_congr_right fun hused => ?_
  obtain ⟨new, hnew⟩ : ∃ new, definitionOf parseYaml after provider = some new := by
    have hsome := serviceNamed_isSome.mpr hused.1
    rw [serviceNamed_parseCompose hnext, Option.isSome_map] at hsome
    exact Option.isSome_iff_exists.mp hsome
  rw [recreate_reported_iff (parseCompose_names_nodup hnext) hused,
    providerTouched_iff hprev hnext hnew, hnew]
  cases hold : definitionOf parseYaml before provider with
  | none =>
    -- A provider that is new is no pair of definitions, and it is reported.
    refine iff_of_true ⟨fun _ => nofun, nofun⟩ nofun
  | some old =>
    have hrel : Option.Rel SameValue (some old) (some new) ↔ SameValue old new :=
      Option.rel_some_some
    have hreported : (∀ d, some old = some d → ChangeCounts d new) ↔ ChangeCounts old new := by
      refine ⟨fun h => h old rfl, ?_⟩
      rintro h _ ⟨⟩
      exact h
    rw [hrel, hreported]
    constructor
    · rintro ⟨hchanged, hsame⟩ _ _ ⟨⟩ ⟨⟩
      by_cases h : SameValue old new
      · have hsilent := hsame h
        rw [changeCounts_of_same h, not_not] at hsilent
        exact Or.inl ⟨h, hsilent⟩
      · exact Or.inr ⟨h, hchanged h⟩
    · intro h
      rcases h old new rfl rfl with ⟨hsame, horder⟩ | ⟨hdiffers, hcounts⟩
      · refine ⟨fun hnot => absurd hsame hnot, fun _ hcounts => ?_⟩
        exact (changeCounts_of_same hsame).mp hcounts horder
      · exact ⟨fun _ => hcounts, fun hsame => absurd hsame hdiffers⟩

/-! ## A tunnel with another image, and with another volume -/

def tunnelDefinition (image volume : Str) : Json :=
  .obj [("image".toList, .str image), ("volumes".toList, .arr [.str volume])]

/-- A file in which `app` uses the namespace of `gw`, which mounts a volume. -/
def tunnelFile (image volume : Str) : Json :=
  .obj [("services".toList, .obj [("gw".toList, tunnelDefinition image volume),
    ("app".toList, .obj [("network_mode".toList, .str "service:gw".toList)])])]

/-- A reader of the files that are written as JSON, which is YAML. -/
def readJson (text : Str) : Except Str Json :=
  match Json.parse text with
  | some v => .ok v
  | none => .error "not JSON".toList

def tunnelStack (image : Str) : ComposeModel :=
  [toService "gw".toList (tunnelDefinition image []),
    toService "app".toList (.obj [("network_mode".toList, .str "service:gw".toList)])]

theorem readJson_tunnelFile (image volume : Str) :
    readJson (stringify (tunnelFile image volume)) = .ok (tunnelFile image volume) := by
  have hplain : Plain (tunnelFile image volume) := by
    simp [tunnelFile, tunnelDefinition, Plain, PlainMembers, PlainElements]
  unfold readJson
  rw [parse_stringify hplain]

theorem parseCompose_tunnelFile (image volume : Str) :
    parseCompose readJson (stringify (tunnelFile image volume)) = .ok (tunnelStack image) := by
  unfold parseCompose
  rw [readJson_tunnelFile]
  rfl

theorem definitionOf_tunnelFile (image volume : Str) :
    definitionOf readJson (stringify (tunnelFile image volume)) "gw".toList =
      some (tunnelDefinition image volume) := by
  unfold definitionOf
  rw [readJson_tunnelFile]
  rfl

/-- `gw` is the only service that another one uses. -/
theorem usedByAnother_tunnelStack {image : Str} :
    UsedByAnother (tunnelStack image) provider ↔ provider = "gw".toList := by
  have hlink : serviceLink (some "service:gw".toList) = some "gw".toList := by decide +kernel
  constructor
  · rintro ⟨-, svc, hsvc, -, hsvclink⟩
    rcases List.mem_cons.mp hsvc with rfl | hsvc
    · cases hsvclink
    · rw [List.mem_singleton.mp hsvc] at hsvclink
      exact Option.some.inj (hsvclink.symm.trans hlink)
  · rintro rfl
    refine ⟨List.mem_cons_self, _, List.mem_cons_of_mem _ List.mem_cons_self, ?_, hlink⟩
    show "app".toList ≠ "gw".toList
    decide

/-- The tunnel gets another image, and that is reported. -/
theorem changes_reported_image :
    ChangesReported readJson (stringify (tunnelFile "vpn:1".toList "a:/x".toList))
      (stringify (tunnelFile "vpn:2".toList "a:/x".toList)) (tunnelStack "vpn:1".toList)
      (tunnelStack "vpn:2".toList) {} := by
  refine (changes_reported_iff (parseCompose_tunnelFile _ _) (parseCompose_tunnelFile _ _) {}).mpr
    fun provider hused old new hold hnew => Or.inr ?_
  rw [usedByAnother_tunnelStack.mp hused, definitionOf_tunnelFile] at hold hnew
  cases hold
  cases hnew
  have hother : "vpn:2".toList ≠ "vpn:1".toList := by decide
  constructor
  · intro hsame
    rcases hsame.get? "image".toList with ⟨hnone, -⟩ | ⟨v, w, hv, hw, hvw⟩
    · cases hnone
    · cases hv
      cases hw
      cases hvw
  · have hfield : "image".toList ∈ ["image".toList, "network_mode".toList] := List.mem_cons_self
    exact .gone hfield rfl fun h => hother (Json.str.inj (Option.some.inj h))

/-- The tunnel mounts another volume, and nothing is reported. -/
theorem not_changes_reported :
    parseCompose readJson (stringify (tunnelFile "vpn:1".toList "a:/x".toList)) =
      .ok (tunnelStack "vpn:1".toList) ∧
    parseCompose readJson (stringify (tunnelFile "vpn:1".toList "b:/x".toList)) =
      .ok (tunnelStack "vpn:1".toList) ∧
    ¬ChangesReported readJson (stringify (tunnelFile "vpn:1".toList "a:/x".toList))
      (stringify (tunnelFile "vpn:1".toList "b:/x".toList)) (tunnelStack "vpn:1".toList)
      (tunnelStack "vpn:1".toList) {} := by
  refine ⟨parseCompose_tunnelFile _ _, parseCompose_tunnelFile _ _, fun hreported => ?_⟩
  have hused : UsedByAnother (tunnelStack "vpn:1".toList) "gw".toList :=
    usedByAnother_tunnelStack.mpr rfl
  have hdiffers : ¬Option.Rel SameValue
      (definitionOf readJson (stringify (tunnelFile "vpn:1".toList "a:/x".toList)) "gw".toList)
      (definitionOf readJson (stringify (tunnelFile "vpn:1".toList "b:/x".toList)) "gw".toList) := by
    rw [definitionOf_tunnelFile, definitionOf_tunnelFile, Option.rel_some_some]
    intro hsame
    rcases hsame.get? "volumes".toList with ⟨hnone, -⟩ | ⟨v, w, hv, hw, hvw⟩
    · cases hnone
    · cases hv
      cases hw
      cases hvw with
      | arr hall =>
        cases hall with
        | cons hab _ => cases hab
  have htouched := (hreported _ hused).1 hdiffers
  rw [recreate_reported_iff (parseCompose_names_nodup (parseCompose_tunnelFile _ [])) hused]
    at htouched
  have hsame : providerTouched (tunnelStack "vpn:1".toList) (tunnelStack "vpn:1".toList)
      "gw".toList = false := by decide +kernel
  rw [hsame] at htouched
  cases htouched

end HomelabMcp.Docker
