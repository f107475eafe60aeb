import HomelabMcp.Docker.Preflight
import HomelabMcp.Lib.SameValue

/-!
# Which changes of a definition count (composePreflight.ts:388)

`providerChanged` compares what was read off two definitions. In terms of the
definitions: a field that comes or goes counts, and so do the strings of `image` and
`network_mode`, the texts of the entries of `ports` and `expose`, and the text and the
place of each variable of `environment`; nothing else does.

- `normalizeEnvironment_eq_iff`: environments are told apart by texts and order.
- `providerChanged_iff`: which changes count.
- `changeCounts_of_same`: of definitions that are the same, only the order of the
  variables does.
-/

namespace HomelabMcp.Docker

open SlashPath Text KeyedList SortKey Json

/-! ## Fields -/

section

/-- A member of a mapping, as text. -/
def MemberText (l : List (Str × Json)) (name t : Str) : Prop :=
  ∃ v, (Json.obj l).get? name = some v ∧ stringOf v = t

/-- The protocol of a port in the long syntax, with its slash. -/
def ProtocolText (l : List (Str × Json)) (t : Str) : Prop :=
  (∃ p, (Json.obj l).get? "protocol".toList = some (.str p) ∧ t = '/' :: p) ∨
    ((∀ p, (Json.obj l).get? "protocol".toList ≠ some (.str p)) ∧ t = [])

/-- The text of an entry of `ports`: the entry itself, or what its `target`, `published`
and `protocol` make. -/
inductive PortText : Json → Str → Prop
  | text (s : Str) : PortText (.str s) s
  | number (literal : Str) : PortText (.num literal) literal
  | published {l : List (Str × Json)} {target published proto : Str} :
      MemberText l "target".toList target → target ≠ [] →
        MemberText l "published".toList published → published ≠ [] → ProtocolText l proto →
          PortText (.obj l) (published ++ ':' :: (target ++ proto))
  | inside {l : List (Str × Json)} {target proto : Str} :
      MemberText l "target".toList target → target ≠ [] →
        (∀ t, MemberText l "published".toList t → t = []) → ProtocolText l proto →
          PortText (.obj l) (target ++ proto)

/-- The text of an entry of `expose`. -/
inductive ExposedText : Json → Str → Prop
  | text (s : Str) : ExposedText (.str s) s
  | number (literal : Str) : ExposedText (.num literal) literal

/-- The texts of the entries of a list that have one. -/
inductive Texts (R : Json → Str → Prop) : List Json → List Str → Prop
  | nil : Texts R [] []
  | skip {e : Json} {l : List Json} {ts : List Str} : (∀ t, ¬ R e t) → Texts R l ts →
      Texts R (e :: l) ts
  | cons {e : Json} {t : Str} {l : List Json} {ts : List Str} : R e t → Texts R l ts →
      Texts R (e :: l) (t :: ts)

/-- The texts of a field; it has none when it is no list. -/
def FieldTexts (R : Json → Str → Prop) (field : Option Json) (ts : List Str) : Prop :=
  (∃ l, field = some (.arr l) ∧ Texts R l ts) ∨ ((∀ l, field ≠ some (.arr l)) ∧ ts = [])

theorem texts_iff {R : Json → Str → Prop} {f : Json → Option Str}
    (hf : ∀ e t, f e = some t ↔ R e t) {l : List Json} {ts : List Str} :
    Texts R l ts ↔ l.filterMap f = ts := by
  constructor
  · intro h
    induction h with
    | nil => rfl
    | skip hnone _ ih =>
      rw [List.filterMap_cons_none, ih]
      exact Option.eq_none_iff_forall_ne_some.mpr fun t ht => hnone t ((hf _ t).mp ht)
    | cons ht _ ih => rw [List.filterMap_cons_some ((hf _ _).mpr ht), ih]
  · rintro rfl
    induction l with
    | nil => exact .nil
    | cons e l ih =>
      cases he : f e with
      | none =>
        rw [List.filterMap_cons_none he]
        exact .skip (fun t ht => by rw [(hf e t).mpr ht] at he; cases he) ih
      | some t =>
        rw [List.filterMap_cons_some he]
        exact .cons ((hf e t).mp he) ih

theorem memberText_iff {l : List (Str × Json)} {name t : Str} :
    MemberText l name t ↔ ((Json.obj l).get? name).map stringOf = some t :=
  Option.map_eq_some_iff.symm

theorem protocolText_iff {l : List (Str × Json)} {t : Str} : ProtocolText l t ↔
    ((stringMember "protocol".toList (.obj l)).map fun p => '/' :: p).getD [] = t := by
  unfold ProtocolText stringMember
  split
  · next p hp =>
    rw [hp]
    constructor
    · rintro (⟨q, hq, rfl⟩ | ⟨hnone, -⟩)
      · cases hq
        rfl
      · exact absurd rfl (hnone p)
    · intro h
      exact Or.inl ⟨p, rfl, h.symm⟩
  · next hnone =>
    constructor
    · rintro (⟨q, hq, -⟩ | ⟨-, rfl⟩)
      · exact absurd hq (hnone q)
      · rfl
    · intro h
      exact Or.inr ⟨hnone, h.symm⟩

/-- An entry of `ports` is read as its text. -/
theorem normalizePort_iff (e : Json) (t : Str) : normalizePort e = some t ↔ PortText e t := by
  cases e with
  | null => exact ⟨(fun h => by cases h), fun h => by cases h⟩
  | bool b => exact ⟨(fun h => by cases h), fun h => by cases h⟩
  | num literal => exact ⟨(fun h => by cases h; exact .number _), fun h => by cases h; rfl⟩
  | str s => exact ⟨(fun h => by cases h; exact .text _), fun h => by cases h; rfl⟩
  | arr l => exact ⟨(fun h => by cases h), fun h => by cases h⟩
  | obj l =>
    have hget {name text : Str} (h : ((Json.obj l).get? name).map stringOf = some text) :
        (((Json.obj l).get? name).map stringOf).getD [] = text := by rw [h]; rfl
    unfold normalizePort
    dsimp only
    constructor
    · intro h
      have htext {name : Str} (hne : (((Json.obj l).get? name).map stringOf).getD [] ≠ []) :
          MemberText l name ((((Json.obj l).get? name).map stringOf).getD []) := by
        rw [memberText_iff]
        cases hname : ((Json.obj l).get? name).map stringOf with
        | none =>
          rw [hname] at hne
          exact absurd rfl hne
        | some text => rfl
      -- the source takes a missing member and an empty one alike
      split at h
      · next hboth =>
        cases h
        exact .published (htext hboth.2) hboth.2 (htext hboth.1) hboth.1 (protocolText_iff.mpr rfl)
      · next hnot =>
        split at h
        · next htarget =>
          cases h
          refine .inside (htext htarget) htarget (fun text ht => ?_) (protocolText_iff.mpr rfl)
          by_contra hne
          exact hnot ⟨hget (memberText_iff.mp ht) ▸ hne, htarget⟩
        · cases h
    · intro h
      -- the texts of a mapping decide which of its two tests holds
      cases h with
      | published htarget hne hpublished hne' hproto =>
        rw [hget (memberText_iff.mp htarget), hget (memberText_iff.mp hpublished),
          protocolText_iff.mp hproto, if_pos ⟨hne', hne⟩]
      | inside htarget hne hnone hproto =>
        have hempty : (((Json.obj l).get? "published".toList).map stringOf).getD [] = [] := by
          cases hname : ((Json.obj l).get? "published".toList).map stringOf with
          | none => rfl
          | some text => exact hnone text (memberText_iff.mpr hname)
        rw [hget (memberText_iff.mp htarget), hempty, protocolText_iff.mp hproto,
          if_neg (fun h => h.1 rfl), if_pos hne]

theorem normalizeExposed_iff (e : Json) (t : Str) :
    normalizeExposed e = some t ↔ ExposedText e t := by
  cases e with
  | num literal => exact ⟨(fun h => by cases h; exact .number _), fun h => by cases h; rfl⟩
  | str s => exact ⟨(fun h => by cases h; exact .text _), fun h => by cases h; rfl⟩
  | null | bool _ | arr _ | obj _ => exact ⟨(fun h => by cases h), fun h => by cases h⟩

theorem normalizePorts_iff {field : Option Json} {ts : List Str} :
    normalizePorts field = ts ↔ FieldTexts PortText field ts := by
  unfold normalizePorts FieldTexts
  split
  · next l =>
    rw [← texts_iff normalizePort_iff]
    exact ⟨fun h => Or.inl ⟨l, rfl, h⟩, fun h => h.elim (fun ⟨l', hl, h⟩ => by cases hl; exact h)
      fun h => absurd rfl (h.1 l)⟩
  · next hnone =>
    exact ⟨fun h => Or.inr ⟨hnone, h.symm⟩, fun h => h.elim (fun ⟨l, hl, _⟩ => absurd hl (hnone l))
      fun h => h.2.symm⟩

theorem normalizeExpose_iff {field : Option Json} {ts : List Str} :
    normalizeExpose field = ts ↔ FieldTexts ExposedText field ts := by
  unfold normalizeExpose FieldTexts
  split
  · next l =>
    rw [← texts_iff normalizeExposed_iff]
    exact ⟨fun h => Or.inl ⟨l, rfl, h⟩, fun h => h.elim (fun ⟨l', hl, h⟩ => by cases hl; exact h)
      fun h => absurd rfl (h.1 l)⟩
  · next hnone =>
    exact ⟨fun h => Or.inr ⟨hnone, h.symm⟩, fun h => h.elim (fun ⟨l, hl, _⟩ => absurd hl (hnone l))
      fun h => h.2.symm⟩

end

/-! ## The environment -/

/-- The assignment that a line of an environment makes: `K=V`, or `K` alone. -/
def lineAssignment : Json → Option (Str × Str)
  | .str entry => some (entry.takeWhile (· ≠ '='), (entry.dropWhile (· ≠ '=')).drop 1)
  | _ => none

/-- The text of a variable's value in a mapping. -/
def valueText : Option Json → Str
  | none | some .null => []
  | some v => stringOf v

/-- The assignments of an environment, in the order in which they are written. -/
def assignments : Option Json → List (Str × Str)
  | some (.arr entries) => entries.filterMap lineAssignment
  | some (.obj members) => (keysOf (.obj members)).map fun name =>
    (name, valueText ((Json.obj members).get? name))
  | _ => []

/-- The last assignment to a name. -/
def LastAssigned (l : List (Str × Str)) (name t : Str) : Prop :=
  ∃ earlier later, l = earlier ++ (name, t) :: later ∧ ∀ a ∈ later, a.1 ≠ name

/-- The text of a variable of an environment. The name `__proto__` takes none. -/
def VariableText (env : Option Json) (name t : Str) : Prop :=
  name ≠ "__proto__".toList ∧ LastAssigned (assignments env) name t

/-- Names as an object lists them: array indices come first. -/
def nameOrder (names : List Str) : List Str :=
  sortOn (fun n => (arrayIndex n).toList) (names.filter fun n => (arrayIndex n).isSome) ++
    names.filter fun n => (arrayIndex n).isNone

/-- The variables of an environment in their order, which is that of their first
assignments but for array indices. -/
def variableOrder (env : Option Json) : List Str :=
  nameOrder (((assignments env).map Prod.fst).filter fun n => n ≠ "__proto__".toList).eraseDups

/-- The property list that a series of assignments leaves. -/
def assigned (l : List (Str × Str)) : List (Str × Str) :=
  l.foldl (fun out a => assign out a.1 a.2) []

theorem assigned_concat (l : List (Str × Str)) (a : Str × Str) :
    assigned (l ++ [a]) = assign (assigned l) a.1 a.2 := by
  unfold assigned
  rw [List.foldl_append]
  rfl

theorem normalizeEnvironment_eq (env : Option Json) :
    normalizeEnvironment env = ownOrder (assigned (assignments env)) := by
  unfold normalizeEnvironment assigned
  split
  · next entries =>
    show _ = ownOrder ((entries.filterMap lineAssignment).foldl _ [])
    rw [List.foldl_filterMap]
    congr 2
    funext out entry
    cases entry <;> rfl
  · next members =>
    have hmember : (fun out name => assign out name (valueText ((Json.obj members).get? name))) =
        assignMember (.obj members) := by
      funext out name
      unfold assignMember
      cases hget : (Json.obj members).get? name with
      | none => rfl
      | some v => cases v <;> rfl
    rw [← hmember]
    show _ = ownOrder (((keysOf (.obj members)).map fun name =>
      (name, valueText ((Json.obj members).get? name))).foldl _ [])
    rw [List.foldl_map]
  · next harr hobj =>
    have hnone : assignments env = [] := by
      unfold assignments
      split
      · next entries => exact absurd rfl (harr entries)
      · next members => exact absurd rfl (hobj members)
      · rfl
    rw [hnone]
    rfl

/-- The properties stand in the order of their first assignments. -/
theorem keys_assigned (l : List (Str × Str)) : (assigned l).map Prod.fst =
    ((l.map Prod.fst).filter fun n => n ≠ "__proto__".toList).eraseDups := by
  induction l using List.reverseRecOn with
  | nil => rfl
  | append_singleton l a ih =>
    rw [assigned_concat, List.map_append, List.filter_append]
    unfold assign
    by_cases hproto : a.1 = "__proto__".toList
    · have hlast : ([a].map Prod.fst).filter (fun n => n ≠ "__proto__".toList) = [] := by
        rw [List.map_singleton, List.filter_singleton, decide_eq_false (not_not.mpr hproto)]
        rfl
      rw [if_pos hproto, ih, hlast, List.append_nil]
    · have hlast : ([a].map Prod.fst).filter (fun n => n ≠ "__proto__".toList) = [a.1] := by
        rw [List.map_singleton, List.filter_singleton, decide_eq_true hproto]
        rfl
      rw [if_neg hproto, keys_upsert, ih, hlast, List.eraseDups_append]
      generalize (l.map Prod.fst).filter (fun n => n ≠ "__proto__".toList) = names
      by_cases hmem : a.1 ∈ names
      · rw [if_pos (List.mem_eraseDups.mpr hmem)]
        simp [List.removeAll, hmem]
      · rw [if_neg (mt List.mem_eraseDups.mp hmem)]
        simp [List.removeAll, hmem, List.eraseDups_cons]

theorem nodup_keys_assigned (l : List (Str × Str)) : ((assigned l).map Prod.fst).Nodup := by
  rw [keys_assigned]
  exact nodup_eraseDups _

theorem lastAssigned_concat {l : List (Str × Str)} {a : Str × Str} {name t : Str} :
    LastAssigned (l ++ [a]) name t ↔ a = (name, t) ∨ (a.1 ≠ name ∧ LastAssigned l name t) := by
  constructor
  · rintro ⟨earlier, later, heq, hlater⟩
    rcases later.eq_nil_or_concat with rfl | ⟨later, b, rfl⟩
    · exact Or.inl (List.append_inj_right' heq rfl |> List.singleton_inj.mp)
    · have hsplit : l ++ [a] = (earlier ++ (name, t) :: later) ++ [b] := by
        rw [heq]
        simp
      obtain ⟨rfl, hab⟩ := List.append_inj' hsplit rfl
      cases hab
      exact Or.inr ⟨hlater _ (by simp), earlier, later, rfl, fun x hx => hlater x (by simp [hx])⟩
  · rintro (rfl | ⟨hne, earlier, later, rfl, hlater⟩)
    · exact ⟨l, [], rfl, fun _ h => by cases h⟩
    · refine ⟨earlier, later ++ [a], by simp, fun x hx => ?_⟩
      rcases List.mem_append.mp hx with hx | hx
      · exact hlater x hx
      · rw [List.mem_singleton.mp hx]
        exact hne

theorem mem_iff_lookup {l : List (Str × Str)} (hl : (l.map Prod.fst).Nodup) {name t : Str} :
    (name, t) ∈ l ↔ lookup Prod.fst name l = some (name, t) := by
  rw [lookup_eq_some_iff hl]
  exact (and_iff_left rfl).symm

/-- A property has the text of the last assignment to it. -/
theorem mem_assigned {l : List (Str × Str)} {name t : Str} :
    (name, t) ∈ assigned l ↔ name ≠ "__proto__".toList ∧ LastAssigned l name t := by
  induction l using List.reverseRecOn with
  | nil =>
    refine ⟨(fun h => by cases h), fun ⟨_, earlier, later, h, _⟩ => ?_⟩
    exact absurd h.symm (by simp)
  | append_singleton l a ih =>
    rw [lastAssigned_concat, mem_iff_lookup (nodup_keys_assigned _), assigned_concat]
    rw [mem_iff_lookup (nodup_keys_assigned l)] at ih
    unfold assign
    by_cases hproto : a.1 = "__proto__".toList
    · rw [if_pos hproto, ih]
      refine and_congr_right fun hname => ?_
      have hne : a.1 ≠ name := fun h => hname (h.symm.trans hproto)
      refine ⟨fun h => Or.inr ⟨hne, h⟩, fun h => h.elim (fun h => ?_) fun h => h.2⟩
      exact absurd (congrArg Prod.fst h) hne
    · rw [if_neg hproto, lookup_upsert]
      by_cases hname : a.1 = name
      · rw [if_pos hname]
        constructor
        · intro h
          have hpair : a = (name, t) := Option.some.inj h
          exact ⟨hname ▸ hproto, Or.inl hpair⟩
        · rintro ⟨-, h | h⟩
          · rw [← h]
          · exact absurd hname h.1
      · rw [if_neg hname, ih]
        refine and_congr_right fun _ => ⟨fun h => Or.inr ⟨hname, h⟩, fun h => h.elim (fun h => ?_)
          fun h => h.2⟩
        exact absurd (congrArg Prod.fst h) hname

theorem ownOrder_keys (l : List (Str × Str)) :
    (ownOrder l).map Prod.fst = nameOrder (l.map Prod.fst) := by
  unfold ownOrder nameOrder sortOn
  rw [List.map_append, List.filter_map, List.filter_map]
  refine congrArg₂ (· ++ ·) ?_ rfl
  exact List.map_insertionSort _ (s := keyLe fun n => (arrayIndex n).toList) _ _
    fun a _ b _ => Iff.rfl

theorem mem_ownOrder {l : List (Str × Str)} {a : Str × Str} : a ∈ ownOrder l ↔ a ∈ l := by
  unfold ownOrder
  rw [List.mem_append, mem_sortOn, List.mem_filter, List.mem_filter, ← and_or_left]
  refine and_iff_left ?_
  cases arrayIndex a.1 <;> simp

theorem nodup_nameOrder {names : List Str} (h : names.Nodup) : (nameOrder names).Nodup := by
  unfold nameOrder
  rw [List.nodup_append]
  refine ⟨sortOn_nodup _ (h.filter _), h.filter _, ?_⟩
  rintro n hn m hm rfl
  have hsome := (List.mem_filter.mp ((mem_sortOn _).mp hn)).2
  have hnone := (List.mem_filter.mp hm).2
  cases hindex : arrayIndex n <;> simp [hindex] at hsome hnone

/-- Lists of properties are equal when their names are, and the text of each. -/
theorem properties_ext {l m : List (Str × Str)} (hl : (l.map Prod.fst).Nodup)
    (hnames : l.map Prod.fst = m.map Prod.fst) (hmem : ∀ a, a ∈ l ↔ a ∈ m) : l = m := by
  induction l generalizing m with
  | nil => exact (List.map_eq_nil_iff.mp hnames.symm).symm
  | cons a l ih =>
    obtain ⟨b, m, rfl, hab, hrest⟩ := List.map_eq_cons_iff.mp hnames.symm
    rw [List.map_cons, List.nodup_cons] at hl
    have hfresh : ∀ x ∈ m, x.1 ≠ a.1 := fun x hx heq =>
      hl.1 (hrest ▸ heq ▸ List.mem_map_of_mem hx)
    obtain rfl : a = b := by
      rcases List.mem_cons.mp ((hmem a).mp List.mem_cons_self) with h | h
      · exact h
      · exact absurd rfl (hfresh a h)
    have htail : l = m := ih hl.2 hrest.symm fun x => by
      have hx := hmem x
      rw [List.mem_cons, List.mem_cons] at hx
      constructor
      · intro h
        refine (hx.mp (Or.inr h)).resolve_left fun heq => hl.1 ?_
        exact heq ▸ List.mem_map_of_mem h
      · intro h
        exact (hx.mpr (Or.inr h)).resolve_left fun heq => hfresh x h (congrArg Prod.fst heq)
    rw [htail]

/-- Environments are told apart by the order of their variables and by their texts. -/
theorem normalizeEnvironment_eq_iff {env env' : Option Json} :
    normalizeEnvironment env = normalizeEnvironment env' ↔ variableOrder env = variableOrder env' ∧
      ∀ name t, VariableText env name t ↔ VariableText env' name t := by
  have hnames (env : Option Json) :
      (normalizeEnvironment env).map Prod.fst = variableOrder env := by
    rw [normalizeEnvironment_eq, ownOrder_keys, keys_assigned]
    rfl
  have hmem (env : Option Json) (name t : Str) :
      (name, t) ∈ normalizeEnvironment env ↔ VariableText env name t := by
    rw [normalizeEnvironment_eq, mem_ownOrder, mem_assigned]
    rfl
  constructor
  · intro h
    refine ⟨by rw [← hnames, ← hnames, h], fun name t => ?_⟩
    rw [← hmem, ← hmem, h]
  · rintro ⟨horder, htexts⟩
    refine properties_ext ?_ ?_ fun a => ?_
    · rw [hnames]
      exact nodup_nameOrder (nodup_eraseDups _)
    · rw [hnames, hnames, horder]
    · exact (hmem env a.1 a.2).trans ((htexts a.1 a.2).trans (hmem env' a.1 a.2).symm)

/-! ## Changes that count -/

/-- The names of the fields of a definition, in order, with commas between them. -/
def fieldNames (definition : Json) : Str :=
  joinOn [','] (sortOn codeUnits (ownKeys definition))

/-- A change of a definition that counts. -/
inductive ChangeCounts (before after : Json) : Prop
  /-- A field comes or goes. -/
  | fields : fieldNames before ≠ fieldNames after → ChangeCounts before after
  /-- The string of `image` or `network_mode` goes. -/
  | gone {field s : Str} : field ∈ ["image".toList, "network_mode".toList] →
      before.get? field = some (.str s) → after.get? field ≠ some (.str s) →
        ChangeCounts before after
  /-- The string of `image` or `network_mode` comes. -/
  | new {field s : Str} : field ∈ ["image".toList, "network_mode".toList] →
      before.get? field ≠ some (.str s) → after.get? field = some (.str s) →
        ChangeCounts before after
  /-- The texts of the ports, with commas between them, are others. -/
  | ports {ts ts' : List Str} : FieldTexts PortText (before.get? "ports".toList) ts →
      FieldTexts PortText (after.get? "ports".toList) ts' → joinOn [','] ts ≠ joinOn [','] ts' →
        ChangeCounts before after
  /-- The texts of `expose`, with commas between them, are others. -/
  | expose {ts ts' : List Str} : FieldTexts ExposedText (before.get? "expose".toList) ts →
      FieldTexts ExposedText (after.get? "expose".toList) ts' →
        joinOn [','] ts ≠ joinOn [','] ts' → ChangeCounts before after
  /-- A variable comes, goes or has another text. -/
  | assignment (name t : Str) : ¬(VariableText (before.get? "environment".toList) name t ↔
      VariableText (after.get? "environment".toList) name t) → ChangeCounts before after
  /-- The variables stand in another order. -/
  | moved : variableOrder (before.get? "environment".toList) ≠
      variableOrder (after.get? "environment".toList) → ChangeCounts before after

theorem stringMember_eq_some_iff {field s : Str} {v : Json} :
    stringMember field v = some s ↔ v.get? field = some (.str s) := by
  unfold stringMember
  split
  · next t ht =>
    rw [ht]
    rw [Option.some_inj, Option.some_inj, Json.str.injEq]
  · next hnone => exact ⟨(fun h => by cases h), fun h => absurd h (hnone s)⟩

theorem stringMember_ne_iff {field : Str} {before after : Json} :
    stringMember field before ≠ stringMember field after ↔
      (∃ s, before.get? field = some (.str s) ∧ after.get? field ≠ some (.str s)) ∨
        ∃ s, before.get? field ≠ some (.str s) ∧ after.get? field = some (.str s) := by
  simp only [ne_eq, ← stringMember_eq_some_iff]
  constructor
  · intro hne
    cases hbefore : stringMember field before with
    | none =>
      rw [hbefore] at hne
      obtain ⟨s, hs⟩ := Option.ne_none_iff_exists'.mp fun h => hne h.symm
      exact Or.inr ⟨s, (fun h => by cases h), hs⟩
    | some s =>
      rw [hbefore] at hne
      exact Or.inl ⟨s, rfl, fun h => hne h.symm⟩
  · rintro (⟨s, hs, hne⟩ | ⟨s, hne, hs⟩) heq
    · exact hne (heq.symm.trans hs)
    · exact hne (heq.trans hs)

/-- Which changes `providerChanged` tells. -/
theorem providerChanged_iff {name : Str} {before after : Json} :
    providerChanged (toService name before) (toService name after) = true ↔
      ChangeCounts before after := by
  unfold providerChanged toService
  simp only [Bool.or_eq_true, decide_eq_true_eq, or_assoc]
  constructor
  · rintro (himage | hmode | hports | hexpose | henvironment | hfields)
    · rcases stringMember_ne_iff.mp himage with ⟨s, hs, hne⟩ | ⟨s, hne, hs⟩
      · exact .gone List.mem_cons_self hs hne
      · exact .new List.mem_cons_self hne hs
    · rcases stringMember_ne_iff.mp hmode with ⟨s, hs, hne⟩ | ⟨s, hne, hs⟩
      · exact .gone (List.mem_cons_of_mem _ List.mem_cons_self) hs hne
      · exact .new (List.mem_cons_of_mem _ List.mem_cons_self) hne hs
    · exact .ports (normalizePorts_iff.mp rfl) (normalizePorts_iff.mp rfl) hports
    · exact .expose (normalizeExpose_iff.mp rfl) (normalizeExpose_iff.mp rfl) hexpose
    · rw [Ne, normalizeEnvironment_eq_iff, not_and_or] at henvironment
      -- two objects of variables differ in their order or in a variable
      rcases henvironment with horder | htexts
      · exact .moved horder
      · obtain ⟨n, hn⟩ := not_forall.mp htexts
        obtain ⟨t, ht⟩ := not_forall.mp hn
        exact .assignment n t ht
    · exact .fields hfields
  · have hstring {field : Str} (hfield : field ∈ ["image".toList, "network_mode".toList])
        (hne : stringMember field before ≠ stringMember field after) :
        stringMember "image".toList before ≠ stringMember "image".toList after ∨
          stringMember "network_mode".toList before ≠ stringMember "network_mode".toList after := by
      rcases List.mem_cons.mp hfield with rfl | hfield
      · exact Or.inl hne
      · rw [List.mem_singleton.mp hfield] at hne
        exact Or.inr hne
    intro h
    cases h with
    | fields hne => exact Or.inr (Or.inr (Or.inr (Or.inr (Or.inr hne))))
    | gone hfield hs hne =>
      have h := hstring hfield (stringMember_ne_iff.mpr (Or.inl ⟨_, hs, hne⟩))
      exact h.imp_right Or.inl
    | new hfield hne hs =>
      have h := hstring hfield (stringMember_ne_iff.mpr (Or.inr ⟨_, hne, hs⟩))
      exact h.imp_right Or.inl
    | ports hts hts' hne =>
      rw [← normalizePorts_iff.mpr hts, ← normalizePorts_iff.mpr hts'] at hne
      exact Or.inr (Or.inr (Or.inl hne))
    | expose hts hts' hne =>
      rw [← normalizeExpose_iff.mpr hts, ← normalizeExpose_iff.mpr hts'] at hne
      exact Or.inr (Or.inr (Or.inr (Or.inl hne)))
    | assignment n t hne =>
      refine Or.inr (Or.inr (Or.inr (Or.inr (Or.inl fun heq => hne ?_))))
      exact (normalizeEnvironment_eq_iff.mp heq).2 n t
    | moved hne =>
      refine Or.inr (Or.inr (Or.inr (Or.inr (Or.inl fun heq => hne ?_))))
      exact (normalizeEnvironment_eq_iff.mp heq).1

/-! ## Definitions that are the same -/

theorem mem_keysOf {l : List (Str × Json)} {name : Str} :
    name ∈ keysOf (.obj l) ↔ ((Json.obj l).get? name).isSome = true := by
  show name ∈ (l.map Prod.fst).eraseDups ↔ _
  rw [List.mem_eraseDups, isSome_get?]

theorem stringOf_arr (l : List Json) :
    stringOf (.arr l) = [','].intercalate (elementTexts l) :=
  rfl

mutual

theorem stringOf_eq : ∀ (v : Json) {w : Json}, SameValue v w → stringOf v = stringOf w
  | .null, _, .null => rfl
  | .bool _, _, .bool _ => rfl
  | .num _, _, .num _ => rfl
  | .str _, _, .str _ => rfl
  | .arr l, _, .arr h => by
    rw [stringOf_arr, stringOf_arr, elementTexts_eq l h]
  | .obj _, _, .obj _ => rfl

theorem elementTexts_eq : ∀ (l : List Json) {m : List Json}, List.Forall₂ SameValue l m →
    elementTexts l = elementTexts m
  | [], _, .nil => rfl
  | v :: l, _, .cons hvw hlm => by
    have hv := stringOf_eq v hvw
    have hl := elementTexts_eq l hlm
    cases hvw with
    | null => simp only [elementTexts, hl]
    | _ => simp only [elementTexts, hl, hv]

end

section
variable {v w : Json}

theorem stringMember_eq (h : SameValue v w) (name : Str) :
    stringMember name v = stringMember name w := by
  unfold stringMember
  rcases h.get? name with ⟨hv, hw⟩ | ⟨a, b, hv, hw, hab⟩
  · rw [hv, hw]
  · rw [hv, hw]
    cases hab <;> rfl

/-- The text of a member. -/
theorem memberText_eq (h : SameValue v w) (name : Str) :
    (v.get? name).map stringOf = (w.get? name).map stringOf := by
  rcases h.get? name with ⟨hv, hw⟩ | ⟨a, b, hv, hw, hab⟩
  · rw [hv, hw]
  · rw [hv, hw]
    exact congrArg some (stringOf_eq _ hab)

theorem normalizePort_eq (h : SameValue v w) : normalizePort v = normalizePort w := by
  cases h with
  | @obj l m hmembers =>
    have hobj : SameValue (.obj l) (.obj m) := .obj hmembers
    unfold normalizePort
    dsimp only
    rw [memberText_eq hobj, memberText_eq hobj, stringMember_eq hobj]
  | _ => rfl

theorem normalizeExposed_eq (h : SameValue v w) : normalizeExposed v = normalizeExposed w := by
  cases h <;> rfl

/-- Lists of the same values are read to the same texts. -/
theorem filterMap_eq {α : Type} {f : Json → Option α} (hf : ∀ {v w}, SameValue v w → f v = f w)
    {l m : List Json} (h : List.Forall₂ SameValue l m) : l.filterMap f = m.filterMap f := by
  induction h with
  | nil => rfl
  | cons hvw _ ih => rw [List.filterMap_cons, List.filterMap_cons, hf hvw, ih]

theorem normalizePorts_eq (h : SameValue v w) (name : Str) :
    normalizePorts (v.get? name) = normalizePorts (w.get? name) := by
  rcases h.get? name with ⟨hv, hw⟩ | ⟨a, b, hv, hw, hab⟩
  · rw [hv, hw]
  · rw [hv, hw]
    cases hab with
    | arr hall => exact filterMap_eq normalizePort_eq hall
    | _ => rfl

theorem normalizeExpose_eq (h : SameValue v w) (name : Str) :
    normalizeExpose (v.get? name) = normalizeExpose (w.get? name) := by
  rcases h.get? name with ⟨hv, hw⟩ | ⟨a, b, hv, hw, hab⟩
  · rw [hv, hw]
  · rw [hv, hw]
    cases hab with
    | arr hall => exact filterMap_eq normalizeExposed_eq hall
    | _ => rfl

theorem sortedKeys_eq (h : SameValue v w) :
    sortOn codeUnits (ownKeys v) = sortOn codeUnits (ownKeys w) := by
  cases h with
  | @arr l m hall =>
    show sortOn codeUnits ((List.range l.length).map numeral) =
      sortOn codeUnits ((List.range m.length).map numeral)
    rw [hall.length_eq]
  | @obj l m hmembers =>
    have hobj : SameValue (.obj l) (.obj m) := .obj hmembers
    refine sortOn_eq_of_perm codeUnits ?_ ((nodup_eraseDups _).map codeUnits_injective)
    refine (List.perm_ext_iff_of_nodup (nodup_eraseDups _) (nodup_eraseDups _)).mpr fun name => ?_
    show name ∈ keysOf (.obj l) ↔ name ∈ keysOf (.obj m)
    rw [mem_keysOf, mem_keysOf]
    rcases hobj.get? name with ⟨hl, hm⟩ | ⟨a, b, hl, hm, -⟩
    · rw [hl, hm]
    · rw [hl, hm]
      exact iff_of_true rfl rfl
  | _ => rfl

theorem lastAssigned_of_nodup {l : List (Str × Str)} (hl : (l.map Prod.fst).Nodup)
    {name t : Str} : LastAssigned l name t ↔ (name, t) ∈ l := by
  constructor
  · rintro ⟨earlier, later, rfl, -⟩
    simp
  · intro hmem
    obtain ⟨earlier, later, rfl⟩ := List.append_of_mem hmem
    refine ⟨earlier, later, rfl, fun a ha heq => ?_⟩
    rw [List.map_append, List.map_cons, List.nodup_append] at hl
    have hname : a.1 ∈ later.map Prod.fst := List.mem_map_of_mem ha
    exact (List.nodup_cons.mp hl.2.1).1 (heq ▸ hname)

theorem variableText_obj {l : List (Str × Json)} {name t : Str} :
    VariableText (some (.obj l)) name t ↔ name ≠ "__proto__".toList ∧
      ∃ value, (Json.obj l).get? name = some value ∧ valueText (some value) = t := by
  have hnames : ((assignments (some (.obj l))).map Prod.fst).Nodup := by
    have hkeys : (assignments (some (.obj l))).map Prod.fst = keysOf (.obj l) := by
      unfold assignments
      rw [List.map_map]
      exact List.map_id _
    rw [hkeys]
    exact nodup_eraseDups _
  unfold VariableText
  rw [lastAssigned_of_nodup hnames]
  refine and_congr_right fun _ => ?_
  constructor
  · intro hmem
    obtain ⟨n, hn, heq⟩ := List.mem_map.mp hmem
    cases heq
    obtain ⟨value, hvalue⟩ := Option.isSome_iff_exists.mp (mem_keysOf.mp hn)
    exact ⟨value, hvalue, by rw [hvalue]⟩
  · rintro ⟨value, hvalue, rfl⟩
    refine List.mem_map.mpr ⟨name, mem_keysOf.mpr (by rw [hvalue]; rfl), ?_⟩
    rw [hvalue]

theorem valueText_eq (h : SameValue v w) : valueText (some v) = valueText (some w) := by
  cases h with
  | null => rfl
  | arr hall => exact stringOf_eq _ (.arr hall)
  | _ => rfl

theorem variableText_eq (h : SameValue v w) (field name t : Str) :
    VariableText (v.get? field) name t ↔ VariableText (w.get? field) name t := by
  rcases h.get? field with ⟨hv, hw⟩ | ⟨a, b, hv, hw, hab⟩
  · rw [hv, hw]
  · rw [hv, hw]
    cases hab with
    | @arr l m hall =>
      have hlines {e e' : Json} (he : SameValue e e') : lineAssignment e = lineAssignment e' := by
        cases he <;> rfl
      have hread : assignments (some (.arr l)) = assignments (some (.arr m)) :=
        filterMap_eq hlines hall
      unfold VariableText
      rw [hread]
    | @obj l m hmembers =>
      have hobj : SameValue (.obj l) (.obj m) := .obj hmembers
      rw [variableText_obj, variableText_obj]
      refine and_congr_right fun _ => ?_
      rcases hobj.get? name with ⟨hl, hm⟩ | ⟨c, d, hl, hm, hcd⟩
      · rw [hl, hm]
      · rw [hl, hm]
        constructor
        · rintro ⟨value, hvalue, rfl⟩
          cases hvalue
          exact ⟨d, rfl, (valueText_eq hcd).symm⟩
        · rintro ⟨value, hvalue, rfl⟩
          cases hvalue
          exact ⟨c, rfl, valueText_eq hcd⟩
    | _ => rfl

/-- Of definitions that are the same only the order of the variables counts. -/
theorem changeCounts_of_same (h : SameValue v w) :
    ChangeCounts v w ↔ variableOrder (v.get? "environment".toList) ≠
      variableOrder (w.get? "environment".toList) := by
  have hread : providerChanged (toService [] v) (toService [] w) = true ↔ ChangeCounts v w :=
    providerChanged_iff
  have henvironment : normalizeEnvironment (v.get? "environment".toList) =
      normalizeEnvironment (w.get? "environment".toList) ↔
        variableOrder (v.get? "environment".toList) =
          variableOrder (w.get? "environment".toList) := by
    rw [normalizeEnvironment_eq_iff]
    exact and_iff_left (variableText_eq h "environment".toList)
  rw [← hread]
  unfold providerChanged toService
  dsimp only
  rw [stringMember_eq h, stringMember_eq h, normalizePorts_eq h, normalizeExpose_eq h,
    sortedKeys_eq h]
  simp only [ne_eq, not_true_eq_false, decide_false, Bool.false_or, Bool.or_false,
    decide_eq_true_eq]
  exact not_congr henvironment

end

end HomelabMcp.Docker
