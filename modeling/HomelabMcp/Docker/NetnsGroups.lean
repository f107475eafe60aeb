import HomelabMcp.Docker.PortCollisions
import Mathlib.Logic.Relation

/-!
# Groups of services in one network namespace

`groupByNetns` looks at one link of each service. What its groups hold is said for every
file, and then compared with the chains of links that end at one owner.

- `mem_groupByNetns`: the groups, by the namespaces that the services name.
- `netns_transitive_iff`: when the services whose chains end at one owner are grouped.
-/

namespace HomelabMcp.Docker

open SlashPath Text KeyedList Relation

variable {model : ComposeModel} {names : List Str} {a b o : Str}

/-! ## What a group holds -/

/-- The namespace a service joins: the one it names, or its own. -/
def namespaceKey (svc : ComposeService) : Str :=
  (netnsOwner svc.networkMode).getD svc.name

/-- The group of a namespace, after the services of `l` have joined. -/
def groupOf (names : List Str) (l : ComposeModel) (k : Str) : NetnsGroup where
  key := k
  provider := if k ∈ names then some k else none
  members := (l.filter fun s => decide (namespaceKey s = k)).map fun s => s.name
  dependents := (l.filter fun s => decide (netnsOwner s.networkMode = some k)).map fun s => s.name
  external := decide (k ∉ names)

theorem namespaceKey_of_owner {svc : ComposeService}
    (h : netnsOwner svc.networkMode = some o) : namespaceKey svc = o := by
  unfold namespaceKey
  rw [h]
  rfl

theorem namespaceKey_of_none {svc : ComposeService}
    (h : netnsOwner svc.networkMode = none) : namespaceKey svc = svc.name := by
  unfold namespaceKey
  rw [h]
  rfl

/-- A namespace that nobody has joined. -/
theorem groupOf_of_none {l : ComposeModel} {k : Str} (h : ∀ s ∈ l, namespaceKey s ≠ k) :
    groupOf names l k =
      ⟨k, if k ∈ names then some k else none, [], [], decide (k ∉ names)⟩ := by
  have hmembers : (l.filter fun s => decide (namespaceKey s = k)) = [] :=
    List.filter_eq_nil_iff.mpr fun s hs => by simpa using h s hs
  have hdependents : (l.filter fun s => decide (netnsOwner s.networkMode = some k)) = [] :=
    List.filter_eq_nil_iff.mpr fun s hs => by
      simpa using fun howner => h s hs (namespaceKey_of_owner howner)
  unfold groupOf
  rw [hmembers, hdependents]
  rfl

/-- A service that joins another namespace. -/
theorem groupOf_append_of_ne {l : ComposeModel} {svc : ComposeService} {k : Str}
    (h : namespaceKey svc ≠ k) : groupOf names (l ++ [svc]) k = groupOf names l k := by
  have howner : netnsOwner svc.networkMode ≠ some k := fun howner =>
    h (namespaceKey_of_owner howner)
  unfold groupOf
  rw [List.filter_append, List.filter_append, List.filter_singleton, List.filter_singleton,
    decide_eq_false h, decide_eq_false howner]
  simp

/-- A service that joins this one. -/
theorem groupOf_append_self {l : ComposeModel} {svc : ComposeService} :
    groupOf names (l ++ [svc]) (namespaceKey svc) =
      { groupOf names l (namespaceKey svc) with
        members := (groupOf names l (namespaceKey svc)).members ++ [svc.name]
        dependents :=
          if netnsOwner svc.networkMode = none then (groupOf names l (namespaceKey svc)).dependents
          else (groupOf names l (namespaceKey svc)).dependents ++ [svc.name] } := by
  unfold groupOf
  rw [List.filter_append, List.filter_append, List.filter_singleton, List.filter_singleton,
    decide_eq_true rfl]
  cases howner : netnsOwner svc.networkMode with
  | none => simp
  | some k =>
    rw [namespaceKey_of_owner howner, decide_eq_true rfl]
    simp

/-- A service with a new name joins. -/
theorem joinGroup_eq {groups : List NetnsGroup} {l : ComposeModel} {svc : ComposeService}
    (hgroup : (lookup NetnsGroup.key (namespaceKey svc) groups).getD
      ⟨namespaceKey svc, if namespaceKey svc ∈ names then some (namespaceKey svc) else none,
        [], [], decide (namespaceKey svc ∉ names)⟩ = groupOf names l (namespaceKey svc))
    (hfresh : svc.name ∉ (groupOf names l (namespaceKey svc)).members) :
    joinGroup names groups svc =
      upsert NetnsGroup.key (groupOf names (l ++ [svc]) (namespaceKey svc)) groups := by
  have hkey : (netnsOwner svc.networkMode).getD svc.name = namespaceKey svc := rfl
  unfold joinGroup
  dsimp only
  rw [hkey, hgroup, if_neg hfresh, groupOf_append_self]

/-- The groups while the services join, of a file whose services have different names. -/
theorem lookup_joinGroup (names : List Str) {l : ComposeModel}
    (hl : (l.map fun s => s.name).Nodup) (k : Str) :
    lookup NetnsGroup.key k (l.foldl (joinGroup names) []) =
      if ∃ s ∈ l, namespaceKey s = k then some (groupOf names l k) else none := by
  induction l using List.reverseRecOn generalizing k with
  | nil => simp
  | append_singleton l svc ih =>
    rw [List.map_append, List.nodup_append] at hl
    obtain ⟨hnodup, -, hnew⟩ := hl
    have hgroup : (lookup NetnsGroup.key (namespaceKey svc) (l.foldl (joinGroup names) [])).getD
        ⟨namespaceKey svc, if namespaceKey svc ∈ names then some (namespaceKey svc) else none,
          [], [], decide (namespaceKey svc ∉ names)⟩ = groupOf names l (namespaceKey svc) := by
      rw [ih hnodup]
      split
      · rfl
      · next hnone =>
        push Not at hnone
        exact (groupOf_of_none hnone).symm
    have hfresh : svc.name ∉ (groupOf names l (namespaceKey svc)).members := by
      intro hmem
      obtain ⟨s, hs, hname⟩ := List.mem_map.mp hmem
      exact hnew _ (List.mem_map_of_mem (List.mem_filter.mp hs).1) _ (List.mem_singleton.mpr rfl)
        hname
    rw [List.foldl_append]
    show lookup NetnsGroup.key k (joinGroup names (l.foldl (joinGroup names) []) svc) = _
    rw [joinGroup_eq hgroup hfresh, lookup_upsert]
    show (if namespaceKey svc = k then _ else _) = _
    by_cases hk : namespaceKey svc = k
    · have hjoined : ∃ s ∈ l ++ [svc], namespaceKey s = k :=
        ⟨svc, List.mem_append_right l (List.mem_singleton.mpr rfl), hk⟩
      rw [if_pos hk, if_pos hjoined, hk]
    · rw [groupOf_append_of_ne hk, ih hnodup, if_neg hk]
      simp [hk]

theorem nodup_joinGroup (names : List Str) (l : ComposeModel) :
    ((l.foldl (joinGroup names) []).map NetnsGroup.key).Nodup := by
  induction l using List.reverseRecOn with
  | nil => exact List.nodup_nil
  | append_singleton l svc ih =>
    rw [List.foldl_append]
    exact nodup_upsert ih

/-- There is one group for each namespace that a service joins. -/
theorem mem_groupByNetns (hmodel : (model.map fun s => s.name).Nodup) {g : NetnsGroup} :
    g ∈ groupByNetns model ↔
      ∃ svc ∈ model, g = addProvider (model.map fun s => s.name)
        (groupOf (model.map fun s => s.name) model (namespaceKey svc)) := by
  unfold groupByNetns
  rw [List.mem_map]
  constructor
  · rintro ⟨g, hg, rfl⟩
    have hlookup := lookup_self (nodup_joinGroup _ model) hg
    rw [lookup_joinGroup _ hmodel] at hlookup
    split at hlookup
    · next hjoined =>
      obtain ⟨svc, hsvc, hkey⟩ := hjoined
      refine ⟨svc, hsvc, ?_⟩
      rw [hkey, Option.some.inj hlookup]
    · cases hlookup
  · rintro ⟨svc, hsvc, rfl⟩
    have hlookup := lookup_joinGroup (model.map fun s => s.name) hmodel (namespaceKey svc)
    rw [if_pos ⟨svc, hsvc, rfl⟩] at hlookup
    exact ⟨_, mem_of_lookup hlookup, rfl⟩

theorem mem_members {k : Str} :
    a ∈ (addProvider names (groupOf names model k)).members ↔
      (∃ svc ∈ model, svc.name = a ∧ namespaceKey svc = k) ∨ a = k ∧ k ∈ names := by
  have hjoined : a ∈ (groupOf names model k).members ↔
      ∃ svc ∈ model, svc.name = a ∧ namespaceKey svc = k := by
    show a ∈ List.map _ (List.filter _ _) ↔ _
    rw [List.mem_map]
    simp only [List.mem_filter, decide_eq_true_eq]
    constructor
    · rintro ⟨svc, ⟨hsvc, hkey⟩, hname⟩
      exact ⟨svc, hsvc, hname, hkey⟩
    · rintro ⟨svc, hsvc, hname, hkey⟩
      exact ⟨svc, ⟨hsvc, hkey⟩, hname⟩
  rw [← hjoined]
  by_cases hk : k ∈ names
  · have hprovider : (groupOf names model k).provider = some k := if_pos hk
    unfold addProvider
    rw [hprovider]
    dsimp only
    split
    · rw [List.mem_cons]
      constructor
      · rintro (rfl | h)
        · exact Or.inr ⟨rfl, hk⟩
        · exact Or.inl h
      · rintro (h | ⟨rfl, -⟩)
        · exact Or.inr h
        · exact Or.inl rfl
    · next hmem =>
      refine ⟨Or.inl, ?_⟩
      rintro (h | ⟨rfl, -⟩)
      · exact h
      · by_contra hnot
        exact hmem ⟨hnot, hk⟩
  · have hprovider : (groupOf names model k).provider = none := if_neg hk
    unfold addProvider
    rw [hprovider]
    exact ⟨Or.inl, fun h => h.resolve_right fun h => hk h.2⟩

theorem addProvider_provider (g : NetnsGroup) : (addProvider names g).provider = g.provider := by
  unfold addProvider
  split
  · split <;> rfl
  · rfl

theorem addProvider_dependents (g : NetnsGroup) :
    (addProvider names g).dependents = g.dependents := by
  unfold addProvider
  split
  · split <;> rfl
  · rfl

/-! ## Chains -/

/-- The service that a mode `service:<name>` names. -/
def serviceLink (networkMode : Option Str) : Option Str :=
  match networkMode with
  | some mode => if "service:".toList.isPrefixOf mode then netnsOwner (some mode) else none
  | none => none

/-- The service `a` uses the network namespace of `b`. -/
def Attaches (model : ComposeModel) (a b : Str) : Prop :=
  ∃ svc ∈ model, svc.name = a ∧ serviceLink svc.networkMode = some b

/-- Nothing named `o` shares the namespace of another. -/
def Owns (model : ComposeModel) (o : Str) : Prop :=
  ∀ svc ∈ model, svc.name = o → netnsOwner svc.networkMode = none

/-- The chain of a service ends at an owner, which may be missing from the file. -/
def EndsAt (model : ComposeModel) (a o : Str) : Prop :=
  (a ∈ model.map fun s => s.name) ∧ ReflTransGen (Attaches model) a o ∧ Owns model o

/-- Some group has both among its members. -/
def Grouped (model : ComposeModel) (a b : Str) : Prop :=
  ∃ g ∈ groupByNetns model, a ∈ g.members ∧ b ∈ g.members

/-- The service `a` joins the group of `k`. -/
def Joins (model : ComposeModel) (a k : Str) : Prop :=
  ∃ svc ∈ model, svc.name = a ∧ namespaceKey svc = k

theorem Joins.unique {k l : Str} (hmodel : (model.map fun s => s.name).Nodup)
    (hk : Joins model a k) (hl : Joins model a l) : k = l := by
  obtain ⟨s, hs, hsname, rfl⟩ := hk
  obtain ⟨t, ht, htname, rfl⟩ := hl
  rw [List.inj_on_of_nodup_map hmodel hs ht (hsname.trans htname.symm)]

/-- A link to a service is one of the links that the grouping looks at. -/
theorem serviceLink_owner {mode : Option Str} (h : serviceLink mode = some b) :
    netnsOwner mode = some b := by
  unfold serviceLink at h
  split at h
  · split at h
    · exact h
    · cases h
  · cases h

theorem Attaches.joins (h : Attaches model a b) : Joins model a b := by
  obtain ⟨svc, hsvc, hname, hlink⟩ := h
  exact ⟨svc, hsvc, hname, namespaceKey_of_owner (serviceLink_owner hlink)⟩

theorem Attaches.mem (h : Attaches model a b) : a ∈ model.map fun s => s.name := by
  obtain ⟨svc, hsvc, rfl, -⟩ := h
  exact List.mem_map_of_mem hsvc

/-- An owner names no other namespace. -/
theorem Owns.not_attaches (h : Owns model o) : ¬Attaches model o b := by
  rintro ⟨svc, hsvc, hname, hlink⟩
  have hnone := h svc hsvc hname
  rw [serviceLink_owner hlink] at hnone
  cases hnone

theorem Owns.joins (h : Owns model o) (ho : o ∈ model.map fun s => s.name) :
    Joins model o o := by
  obtain ⟨svc, hsvc, rfl⟩ := List.mem_map.mp ho
  exact ⟨svc, hsvc, rfl, namespaceKey_of_none (h svc hsvc rfl)⟩

/-- Two services are grouped when a group that exists has each, joined or as the provider. -/
theorem grouped_iff (hmodel : (model.map fun s => s.name).Nodup) :
    Grouped model a b ↔
      ∃ k, (∃ c, Joins model c k) ∧ (Joins model a k ∨ a = k ∧ k ∈ model.map fun s => s.name) ∧
        (Joins model b k ∨ b = k ∧ k ∈ model.map fun s => s.name) := by
  unfold Grouped
  constructor
  · rintro ⟨g, hg, ha, hb⟩
    obtain ⟨svc, hsvc, rfl⟩ := (mem_groupByNetns hmodel).mp hg
    exact ⟨_, ⟨svc.name, svc, hsvc, rfl, rfl⟩, mem_members.mp ha, mem_members.mp hb⟩
  · rintro ⟨k, ⟨c, svc, hsvc, -, rfl⟩, ha, hb⟩
    exact ⟨_, (mem_groupByNetns hmodel).mpr ⟨svc, hsvc, rfl⟩, mem_members.mpr ha,
      mem_members.mpr hb⟩

/-- Services that join one namespace are grouped. -/
theorem grouped_of_joins {k : Str} (hmodel : (model.map fun s => s.name).Nodup)
    (ha : Joins model a k) (hb : Joins model b k) : Grouped model a b :=
  (grouped_iff hmodel).mpr ⟨k, ⟨a, ha⟩, Or.inl ha, Or.inl hb⟩

/-- A chain that ends does not go round. -/
theorem not_cyclic (hmodel : (model.map fun s => s.name).Nodup)
    (h : ReflTransGen (Attaches model) a o) (ho : Owns model o) :
    ¬TransGen (Attaches model) a a := by
  induction h using ReflTransGen.head_induction_on with
  | refl =>
    intro hcycle
    obtain ⟨c, hstep, -⟩ := TransGen.head'_iff.mp hcycle
    exact ho.not_attaches hstep
  | head hstep _ ih =>
    intro hcycle
    -- The first step of the cycle is the step of the chain, so the cycle moves along.
    obtain ⟨c, hfirst, hrest⟩ := TransGen.head'_iff.mp hcycle
    cases hfirst.joins.unique hmodel hstep.joins
    exact ih (TransGen.tail' hrest hstep)

/-- The chain of a service that ends at `o` has no link, one, or more. -/
theorem EndsAt.cases (h : EndsAt model a o) :
    a = o ∨ Attaches model a o ∨
      ∃ b c, Attaches model a b ∧ Attaches model b c ∧ ReflTransGen (Attaches model) c o := by
  obtain ⟨-, hchain, -⟩ := h
  rcases ReflTransGen.cases_head hchain with h | ⟨b, hab, hbo⟩
  · exact Or.inl h
  · rcases ReflTransGen.cases_head hbo with rfl | ⟨c, hbc, hco⟩
    · exact Or.inr (Or.inl hab)
    · exact Or.inr (Or.inr ⟨b, c, hab, hbc, hco⟩)

/-- What is not a service of the file attaches to nothing. -/
theorem eq_of_notMem {c : Str} (hc : c ∉ model.map fun s => s.name)
    (h : ReflTransGen (Attaches model) c o) : c = o := by
  rcases ReflTransGen.cases_head h with h | ⟨d, hcd, -⟩
  · exact h
  · exact absurd hcd.mem hc

/-! ## Whether sharing is transitive -/

/-- A service claims a port through `ports:` or `expose:`. -/
def ClaimsHard (model : ComposeModel) (a : Str) (port : Nat) : Prop :=
  ∃ c ∈ model.flatMap extractPortClaims, c.service = a ∧ c.port = port ∧ c.source ≠ .envHint

/-- Services whose chains end at one owner are grouped, and reported when they claim one
port; every service is in some group, whatever its chain does. -/
def NetnsTransitive (model : ComposeModel) : Prop :=
  (∀ a b o, EndsAt model a o → EndsAt model b o → Grouped model a b ∧
    ∀ port, a ≠ b → ClaimsHard model a port → ClaimsHard model b port →
      ∃ h ∈ detectPortCollisions (groupByNetns model) (model.flatMap extractPortClaims) model,
        h.kind = .portCollision ∧ h.port = some port ∧ a ∈ h.services ∧ b ∈ h.services) ∧
  ∀ a ∈ model.map (fun s => s.name), Grouped model a a

/-- Two links on the way to an owner end outside the file, and whoever ends there is the
service in the middle or attaches to it. -/
def ShortChains (model : ComposeModel) : Prop :=
  ∀ a b c o, Attaches model a b → Attaches model b c → ReflTransGen (Attaches model) c o →
    Owns model o →
      (c ∉ model.map fun s => s.name) ∧ ∀ x, EndsAt model x c → x = b ∨ Attaches model x b

/-- Grouped services that claim one port are reported. -/
theorem Grouped.reported {port : Nat} (h : Grouped model a b) (hne : a ≠ b)
    (ha : ClaimsHard model a port) (hb : ClaimsHard model b port) :
    ∃ h ∈ detectPortCollisions (groupByNetns model) (model.flatMap extractPortClaims) model,
      h.kind = .portCollision ∧ h.port = some port ∧ a ∈ h.services ∧ b ∈ h.services := by
  obtain ⟨g, hg, hamem, hbmem⟩ := h
  obtain ⟨c, hc, hca, hcport, -⟩ := ha
  obtain ⟨d, hd, hdb, hdport, -⟩ := hb
  have haclaims := mem_claimants.mpr ⟨hamem, c, hc, hca, hcport⟩
  have hbclaims := mem_claimants.mpr ⟨hbmem, d, hd, hdb, hdport⟩
  refine ⟨portCollision (model.flatMap extractPortClaims) g port, ?_, rfl, rfl, haclaims, hbclaims⟩
  exact List.mem_append_right _
    (List.mem_flatMap.mpr ⟨g, hg, portCollision_mem haclaims hbclaims hne⟩)

/-- A service and the one two links further are in no common group. -/
theorem not_grouped_two_links {c : Str} (hmodel : (model.map fun s => s.name).Nodup)
    (hab : Attaches model a b) (hbc : Attaches model b c)
    (hco : ReflTransGen (Attaches model) c o) (ho : Owns model o)
    (hc : c ∈ model.map fun s => s.name) : ¬Grouped model a c := by
  have hcyclic : ∀ x, ReflTransGen (Attaches model) a x → ReflTransGen (Attaches model) x o →
      Attaches model x a → False := by
    intro x hax hxo hxa
    exact not_cyclic hmodel hxo ho (TransGen.head' hxa hax)
  have hbo : ReflTransGen (Attaches model) b o := ReflTransGen.head hbc hco
  have hac : ReflTransGen (Attaches model) a c := (ReflTransGen.single hab).tail hbc
  -- The service `c` joins its own namespace or the one it attaches to.
  have hcjoins : Joins model c c ∧ c = o ∨ ∃ d, Attaches model c d := by
    rcases ReflTransGen.cases_head hco with rfl | ⟨d, hcd, -⟩
    · exact Or.inl ⟨ho.joins hc, rfl⟩
    · exact Or.inr ⟨d, hcd⟩
  have hcb : c ≠ b := by
    rintro rfl
    exact not_cyclic hmodel hbo ho (TransGen.single hbc)
  have hca : c ≠ a := by
    rintro rfl
    exact hcyclic b (ReflTransGen.single hab) hbo hbc
  rw [grouped_iff hmodel]
  rintro ⟨k, -, ha, hck⟩
  have hk : k = b ∨ k = a := by
    rcases ha with ha | ⟨rfl, -⟩
    · exact Or.inl (ha.unique hmodel hab.joins)
    · exact Or.inr rfl
  rcases hck with hck | ⟨rfl, -⟩
  · rcases hcjoins with ⟨hcc, -⟩ | ⟨d, hcd⟩
    · cases hcc.unique hmodel hck
      exact hk.elim hcb hca
    · cases hcd.joins.unique hmodel hck
      rcases hk with rfl | rfl
      · exact not_cyclic hmodel hbo ho ((TransGen.single hbc).tail hcd)
      · exact hcyclic c hac hco hcd
  · exact hk.elim hcb hca

/-- Whoever is grouped with a service is it, joins what it joins, or is joined by it. -/
theorem Grouped.cases {k : Str} (h : Grouped model a b)
    (hmodel : (model.map fun s => s.name).Nodup) (hb : Joins model b k) :
    Joins model a k ∨ a = k ∨ Joins model a b ∨ a = b := by
  obtain ⟨l, -, ha, hbl⟩ := (grouped_iff hmodel).mp h
  have hl : l = k ∨ l = b := by
    rcases hbl with hbl | ⟨rfl, -⟩
    · exact Or.inl (hbl.unique hmodel hb)
    · exact Or.inr rfl
  rcases ha with ha | ⟨rfl, -⟩
  · rcases hl with rfl | rfl
    · exact Or.inl ha
    · exact Or.inr (Or.inr (Or.inl ha))
  · rcases hl with rfl | rfl
    · exact Or.inr (Or.inl rfl)
    · exact Or.inr (Or.inr (Or.inr rfl))

/-- When two links end outside the file, only the service in the middle and what attaches
to it are grouped with both services. -/
theorem eq_or_attaches_of_grouped {c x : Str} (hmodel : (model.map fun s => s.name).Nodup)
    (hab : Attaches model a b) (hbc : Attaches model b c)
    (hc : c ∉ model.map fun s => s.name) (hx : EndsAt model x c)
    (hxa : Grouped model x a) (hxb : Grouped model x b) : x = b ∨ Attaches model x b := by
  have hxc : x ≠ c := fun h => hc (h ▸ hx.1)
  have hbc' : b ≠ c := fun h => hc (h ▸ hbc.mem)
  have hac : a ≠ c := fun h => hc (h ▸ hab.mem)
  obtain ⟨d, hxd, -⟩ := (ReflTransGen.cases_head hx.2.1).resolve_left hxc
  rcases hxb.cases hmodel hbc.joins with hjoins | rfl | hjoins | rfl
  · -- It attaches to the missing service too, so it is not grouped with `a`.
    rcases hxa.cases hmodel hab.joins with hjoins' | rfl | hjoins' | rfl
    · exact absurd (hjoins'.unique hmodel hjoins) hbc'
    · exact Or.inl rfl
    · exact absurd (hjoins'.unique hmodel hjoins) hac
    · exact Or.inr hab
  · exact absurd rfl hxc
  · cases hxd.joins.unique hmodel hjoins
    exact Or.inr hxd
  · exact Or.inl rfl

theorem netns_transitive_iff (model : ComposeModel)
    (hmodel : (model.map fun s => s.name).Nodup) :
    NetnsTransitive model ↔ ShortChains model := by
  constructor
  · rintro ⟨hgrouped, -⟩ a b c o hab hbc hco ho
    have hbo : ReflTransGen (Attaches model) b o := ReflTransGen.head hbc hco
    have hao : EndsAt model a o := ⟨hab.mem, ReflTransGen.head hab hbo, ho⟩
    have hc : c ∉ model.map fun s => s.name := by
      intro hc
      exact not_grouped_two_links hmodel hab hbc hco ho hc
        (hgrouped a c o hao ⟨hc, hco, ho⟩).1
    cases eq_of_notMem hc hco
    exact ⟨hc, fun x hx => eq_or_attaches_of_grouped hmodel hab hbc hc hx
      (hgrouped x a c hx hao).1 (hgrouped x b c hx ⟨hbc.mem, hbo, ho⟩).1⟩
  · intro hshort
    have hgrouped : ∀ a b o, EndsAt model a o → EndsAt model b o → Grouped model a b := by
      intro a b o ha hb
      by_cases hlong : ∃ x y z, Attaches model x y ∧ Attaches model y z ∧
          ReflTransGen (Attaches model) z o
      · -- All of them are the service in the middle or attach to it.
        obtain ⟨x, y, z, hxy, hyz, hzo⟩ := hlong
        obtain ⟨hz, hall⟩ := hshort x y z o hxy hyz hzo ha.2.2
        cases eq_of_notMem hz hzo
        have hmem : ∀ w, EndsAt model w o →
            Joins model w y ∨ w = y ∧ y ∈ model.map fun s => s.name := by
          intro w hw
          exact (hall w hw).elim (fun h => Or.inr ⟨h, hyz.mem⟩) fun h => Or.inl h.joins
        exact (grouped_iff hmodel).mpr ⟨y, ⟨x, hxy.joins⟩, hmem a ha, hmem b hb⟩
      · -- All of them are the owner or attach to it.
        have hjoins : ∀ w, EndsAt model w o → Joins model w o := by
          intro w hw
          rcases hw.cases with rfl | hwo | ⟨x, y, hwx, hxy, hyo⟩
          · exact hw.2.2.joins hw.1
          · exact hwo.joins
          · exact absurd ⟨w, x, y, hwx, hxy, hyo⟩ hlong
        exact grouped_of_joins hmodel (hjoins a ha) (hjoins b hb)
    refine ⟨fun a b o ha hb => ⟨hgrouped a b o ha hb, fun port hne hca hcb =>
      (hgrouped a b o ha hb).reported hne hca hcb⟩, ?_⟩
    intro a ha
    obtain ⟨svc, hsvc, rfl⟩ := List.mem_map.mp ha
    exact grouped_of_joins hmodel ⟨svc, hsvc, rfl, rfl⟩ ⟨svc, hsvc, rfl, rfl⟩

theorem netns_transitive_gatewayStack : NetnsTransitive gatewayStack ↔ ShortChains gatewayStack :=
  netns_transitive_iff gatewayStack (by decide)

/-- Three services in a row, of which the first and the last claim port 80. -/
def chainStack : ComposeModel :=
  [gatewayService "a".toList (some "service:b".toList) ["80".toList] [],
    gatewayService "b".toList (some "service:c".toList) [] [],
    gatewayService "c".toList none ["80".toList] []]

/-- The first and the last service of the row are in no common group. -/
theorem not_netns_transitive : ¬NetnsTransitive chainStack := by
  have hmodel : (chainStack.map fun s => s.name).Nodup := by decide
  have hab : Attaches chainStack "a".toList "b".toList :=
    ⟨_, List.mem_cons_self, rfl, by decide +kernel⟩
  have hbc : Attaches chainStack "b".toList "c".toList :=
    ⟨_, List.mem_cons_of_mem _ List.mem_cons_self, rfl, by decide +kernel⟩
  have hc : Owns chainStack "c".toList := by
    have hall : ∀ svc ∈ chainStack, svc.name = "c".toList →
        netnsOwner svc.networkMode = none := by decide +kernel
    exact hall
  rintro ⟨hgrouped, -⟩
  refine not_grouped_two_links hmodel hab hbc ReflTransGen.refl hc (by decide)
    (hgrouped _ _ "c".toList ⟨hab.mem, ?_, hc⟩ ⟨by decide, ReflTransGen.refl, hc⟩).1
  exact (ReflTransGen.single hab).tail hbc

end HomelabMcp.Docker
