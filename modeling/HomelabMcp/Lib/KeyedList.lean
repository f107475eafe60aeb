import Mathlib.Data.List.Nodup

/-!
# Lists keyed by a projection

A table with a primary key, kept as the list of its rows in insertion order:
an upsert overwrites the row with the same key in place and otherwise appends,
which is what `Map.prototype.set` and `INSERT … ON CONFLICT DO UPDATE` do.
Nothing here names a particular table; the key is a parameter.
-/

namespace HomelabMcp.KeyedList

universe u v

variable {α : Type u} {κ : Type v} [DecidableEq κ] (key : α → κ)

/-- The row stored under `k`. -/
def lookup (k : κ) (l : List α) : Option α :=
  l.find? fun a => decide (key a = k)

/-- Store `a` under its own key. -/
def upsert (a : α) : List α → List α
  | [] => [a]
  | b :: l => if key b = key a then a :: l else b :: upsert a l

/-- Store the rows of `as` one after the other. -/
def upsertAll (as l : List α) : List α :=
  as.foldl (fun l a => upsert key a l) l

variable {key}

@[simp] theorem lookup_nil (k : κ) : lookup key k ([] : List α) = none := rfl

theorem lookup_cons (k : κ) (a : α) (l : List α) :
    lookup key k (a :: l) = if key a = k then some a else lookup key k l := by
  unfold lookup
  rw [List.find?_cons]
  by_cases h : key a = k <;> simp [h]

theorem key_of_lookup {k : κ} {a : α} {l : List α} (h : lookup key k l = some a) :
    key a = k := by
  simpa using List.find?_some h

theorem mem_of_lookup {k : κ} {a : α} {l : List α} (h : lookup key k l = some a) :
    a ∈ l :=
  List.mem_of_find?_eq_some h

theorem lookup_eq_none_iff {k : κ} {l : List α} :
    lookup key k l = none ↔ ∀ a ∈ l, key a ≠ k := by
  unfold lookup
  rw [List.find?_eq_none]
  simp

/-- With distinct keys, looking a row up is being a row with that key. -/
theorem lookup_eq_some_iff {k : κ} {a : α} {l : List α} (hl : (l.map key).Nodup) :
    lookup key k l = some a ↔ a ∈ l ∧ key a = k := by
  refine ⟨fun h => ⟨mem_of_lookup h, key_of_lookup h⟩, ?_⟩
  rintro ⟨hmem, rfl⟩
  induction l with
  | nil => cases hmem
  | cons b l ih =>
    rw [List.map_cons, List.nodup_cons] at hl
    rw [lookup_cons]
    rcases List.mem_cons.mp hmem with rfl | hmem
    · rw [if_pos rfl]
    · have hne : key b ≠ key a := fun h => hl.1 (h ▸ List.mem_map_of_mem hmem)
      rw [if_neg hne]
      exact ih hl.2 hmem

theorem lookup_self {a : α} {l : List α} (hl : (l.map key).Nodup) (h : a ∈ l) :
    lookup key (key a) l = some a :=
  (lookup_eq_some_iff hl).mpr ⟨h, rfl⟩

theorem lookup_isSome_iff {k : κ} {l : List α} :
    (lookup key k l).isSome ↔ ∃ a ∈ l, key a = k := by
  unfold lookup
  rw [List.find?_isSome]
  simp

/-- Filtering a table with distinct keys filters what is looked up. -/
theorem lookup_filter {k : κ} {l : List α} (hl : (l.map key).Nodup) (p : α → Bool) :
    lookup key k (l.filter p) = (lookup key k l).filter p := by
  have hnd : ((l.filter p).map key).Nodup := hl.sublist (List.filter_sublist.map key)
  ext a
  rw [lookup_eq_some_iff hnd, List.mem_filter, Option.filter_eq_some_iff,
    lookup_eq_some_iff hl]
  tauto

@[simp] theorem lookup_upsert (k : κ) (a : α) (l : List α) :
    lookup key k (upsert key a l) = if key a = k then some a else lookup key k l := by
  induction l with
  | nil => rw [upsert, lookup_cons]
  | cons b l ih =>
    unfold upsert
    by_cases hb : key b = key a
    · rw [if_pos hb, lookup_cons, lookup_cons, hb]
      split <;> rfl
    · rw [if_neg hb, lookup_cons, ih, lookup_cons]
      by_cases hk : key b = k
      · rw [if_pos hk, if_neg (fun h => hb (hk.trans h.symm)), if_pos hk]
      · rw [if_neg hk, if_neg hk]

theorem mem_upsert {a b : α} {l : List α} (h : b ∈ upsert key a l) : b = a ∨ b ∈ l := by
  induction l with
  | nil => exact Or.inl (List.mem_singleton.mp h)
  | cons c l ih =>
    unfold upsert at h
    split at h
    · rcases List.mem_cons.mp h with h | h
      · exact Or.inl h
      · exact Or.inr (List.mem_cons_of_mem c h)
    · rcases List.mem_cons.mp h with rfl | h
      · exact Or.inr List.mem_cons_self
      · exact (ih h).imp_right (List.mem_cons_of_mem c)

theorem keys_upsert (a : α) (l : List α) :
    (upsert key a l).map key = if key a ∈ l.map key then l.map key else l.map key ++ [key a] := by
  induction l with
  | nil => simp [upsert]
  | cons b l ih =>
    unfold upsert
    by_cases hb : key b = key a
    · simp [hb]
    · rw [if_neg hb, List.map_cons, ih, List.map_cons]
      by_cases hm : key a ∈ l.map key
      · rw [if_pos hm, if_pos (List.mem_cons_of_mem _ hm)]
      · rw [if_neg hm, if_neg (by simpa [List.mem_cons, Ne.symm hb] using hm), List.cons_append]

theorem nodup_upsert {a : α} {l : List α} (hl : (l.map key).Nodup) :
    ((upsert key a l).map key).Nodup := by
  rw [keys_upsert]
  split
  · exact hl
  · rename_i hm
    exact List.nodup_append.mpr ⟨hl, by simp, fun x hx y hy => by
      rw [List.mem_singleton] at hy
      subst hy
      exact fun h => hm (h ▸ hx)⟩

theorem nodup_upsertAll (as : List α) {l : List α} (hl : (l.map key).Nodup) :
    ((upsertAll key as l).map key).Nodup := by
  induction as generalizing l with
  | nil => exact hl
  | cons a as ih => exact ih (nodup_upsert hl)

/-- Storing rows with distinct keys: each key they use answers with the stored
row, every other key as before. -/
theorem lookup_upsertAll {as : List α} (has : (as.map key).Nodup) (k : κ) (l : List α) :
    lookup key k (upsertAll key as l) = (lookup key k as).or (lookup key k l) := by
  induction as generalizing l with
  | nil => rfl
  | cons a as ih =>
    rw [List.map_cons, List.nodup_cons] at has
    show lookup key k (upsertAll key as (upsert key a l)) = _
    rw [ih has.2, lookup_upsert, lookup_cons]
    by_cases h : key a = k
    · have hnone : lookup key k as = none :=
        lookup_eq_none_iff.mpr fun b hb hk =>
          has.1 (h.trans hk.symm ▸ List.mem_map_of_mem hb)
      rw [if_pos h, if_pos h, hnone]
      rfl
    · rw [if_neg h, if_neg h]

theorem mem_upsertAll {b : α} {as l : List α} (h : b ∈ upsertAll key as l) :
    b ∈ as ∨ b ∈ l := by
  induction as generalizing l with
  | nil => exact Or.inr h
  | cons a as ih =>
    rcases ih h with h | h
    · exact Or.inl (List.mem_cons_of_mem a h)
    · rcases mem_upsert h with rfl | h
      · exact Or.inl List.mem_cons_self
      · exact Or.inr h

theorem mem_keys_upsertAll {k : κ} {as l : List α} (h : k ∈ as.map key ∨ k ∈ l.map key) :
    k ∈ (upsertAll key as l).map key := by
  induction as generalizing l with
  | nil => exact h.resolve_left (by simp)
  | cons a as ih =>
    refine ih ?_
    rw [keys_upsert]
    rcases h with h | h
    · rcases List.mem_cons.mp h with rfl | h
      · right
        split
        · assumption
        · exact List.mem_append_right _ (List.mem_singleton.mpr rfl)
      · exact Or.inl h
    · right
      split
      · exact h
      · exact List.mem_append_left _ h

theorem upsert_of_notMem {a : α} {l : List α} (h : key a ∉ l.map key) :
    upsert key a l = l ++ [a] := by
  induction l with
  | nil => rfl
  | cons b l ih =>
    rw [List.map_cons, List.mem_cons, not_or] at h
    unfold upsert
    rw [if_neg (Ne.symm h.1), ih h.2, List.cons_append]

/-- Storing rows with distinct new keys appends them. -/
theorem upsertAll_of_nodup {as l : List α} (h : ((l ++ as).map key).Nodup) :
    upsertAll key as l = l ++ as := by
  induction as generalizing l with
  | nil => exact (List.append_nil l).symm
  | cons a as ih =>
    have hnot : key a ∉ l.map key := by
      rw [List.map_append, List.map_cons, List.nodup_append] at h
      exact fun hm => h.2.2 _ hm _ List.mem_cons_self rfl
    show upsertAll key as (upsert key a l) = _
    rw [upsert_of_notMem hnot, ih (by rwa [List.append_assoc]), List.append_assoc]
    rfl

/-- Whatever is stored leaves a row under its key. -/
theorem exists_mem_upsertAll {a : α} {as l : List α} (h : a ∈ as) :
    ∃ b ∈ upsertAll key as l, key b = key a :=
  List.mem_map.mp (mem_keys_upsertAll (Or.inl (List.mem_map_of_mem h)))

end HomelabMcp.KeyedList
