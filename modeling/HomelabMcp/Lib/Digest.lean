import Mathlib.Data.List.Infix
import Mathlib.Logic.Function.Basic

/-!
# Digests and unambiguous framing

What a development that hashes structured data needs of its hash function, and
nothing about any particular one.

- `CollisionFree digest`: the idealised cryptographic digest: no two messages
  share a digest, and no digest is a proper initial part of another (a digest of
  fixed width has the second property for free).
- `frame t l`: the concatenation `name ‖ t ‖ digest ‖ name ‖ t ‖ digest …`.
  `frame_injective`: when no name contains the terminator byte `t`, the
  concatenation determines the list.
- `lengthPrefixed`: a concrete digest with both properties, so that closed
  statements about a hashing program can be evaluated.
-/

namespace HomelabMcp

/-- A byte string. -/
abbrev Bytes := List UInt8

namespace Digest

/-- The idealisation of a cryptographic digest. -/
structure CollisionFree (digest : Bytes → Bytes) : Prop where
  injective : Function.Injective digest
  prefixFree : ∀ x y, digest x <+: digest y → digest x = digest y

/-- Two digests at the head of equal byte strings are the same digest. -/
theorem CollisionFree.append_inj {digest : Bytes → Bytes} (h : CollisionFree digest)
    {x y r s : Bytes} (heq : digest x ++ r = digest y ++ s) :
    digest x = digest y ∧ r = s := by
  have hx : digest x <+: digest x ++ r := List.prefix_append _ _
  have hy : digest y <+: digest x ++ r := heq ▸ List.prefix_append _ _
  have hd : digest x = digest y := by
    rcases List.prefix_or_prefix_of_prefix hx hy with hp | hp
    · exact h.prefixFree x y hp
    · exact (h.prefixFree y x hp).symm
  rw [hd] at heq
  exact ⟨hd, List.append_cancel_left heq⟩

/-! ## Framing -/

/-- A string that stops at the first `t` is determined by what follows it. -/
theorem delimited_inj {t : UInt8} {a b r s : Bytes} (ha : t ∉ a) (hb : t ∉ b)
    (heq : a ++ t :: r = b ++ t :: s) : a = b ∧ r = s := by
  induction a generalizing b with
  | nil =>
    cases b with
    | nil => exact ⟨rfl, by simpa using heq⟩
    | cons y b =>
      have : t = y := by simpa using congrArg List.head? heq
      exact absurd (this ▸ List.mem_cons_self) hb
  | cons x a ih =>
    cases b with
    | nil =>
      have : x = t := by simpa using congrArg List.head? heq
      exact absurd (this ▸ List.mem_cons_self) ha
    | cons y b =>
      rw [List.cons_append, List.cons_append, List.cons.injEq] at heq
      obtain ⟨hxy, htail⟩ := heq
      obtain ⟨hab, hrs⟩ := ih (fun h => ha (List.mem_cons_of_mem x h))
        (fun h => hb (List.mem_cons_of_mem y h)) htail
      exact ⟨by rw [hxy, hab], hrs⟩

/-- The concatenation of `name ‖ t ‖ digest` over a list of named digests. -/
def frame (t : UInt8) (l : List (Bytes × Bytes)) : Bytes :=
  l.flatMap fun c => c.1 ++ t :: c.2

theorem frame_cons (t : UInt8) (c : Bytes × Bytes) (l : List (Bytes × Bytes)) :
    frame t (c :: l) = c.1 ++ t :: (c.2 ++ frame t l) := by
  unfold frame
  rw [List.flatMap_cons, List.append_assoc, List.cons_append]

/-- Framed lists are unambiguous: names that avoid the terminator, digests that
are digests. -/
theorem frame_injective {digest : Bytes → Bytes} (h : CollisionFree digest) {t : UInt8}
    {l m : List (Bytes × Bytes)}
    (hl : ∀ c ∈ l, t ∉ c.1 ∧ ∃ x, c.2 = digest x)
    (hm : ∀ c ∈ m, t ∉ c.1 ∧ ∃ x, c.2 = digest x)
    (heq : frame t l = frame t m) : l = m := by
  induction l generalizing m with
  | nil =>
    cases m with
    | nil => rfl
    | cons d m => simp [frame] at heq
  | cons c l ih =>
    cases m with
    | nil => simp [frame] at heq
    | cons d m =>
      rw [frame_cons, frame_cons] at heq
      obtain ⟨hcn, x, hx⟩ := hl c List.mem_cons_self
      obtain ⟨hdn, y, hy⟩ := hm d List.mem_cons_self
      obtain ⟨hname, hrest⟩ := delimited_inj hcn hdn heq
      rw [hx, hy] at hrest
      obtain ⟨hdig, htail⟩ := h.append_inj hrest
      have hcd : c = d := Prod.ext hname (by rw [hx, hy, hdig])
      rw [hcd, ih (fun e he => hl e (List.mem_cons_of_mem c he))
        (fun e he => hm e (List.mem_cons_of_mem d he)) htail]

/-! ## A concrete collision-free digest -/

/-- A self-delimiting code of a length: base 255, with `255` as the carry. -/
def lengthCode (n : Nat) : Bytes :=
  List.replicate (n / 255) 255 ++ [UInt8.ofNat (n % 255)]

/-- The message behind its own length. -/
def lengthPrefixed (x : Bytes) : Bytes :=
  lengthCode x.length ++ x

theorem ofNat_ne_255 {n : Nat} (h : n < 255) : UInt8.ofNat n ≠ 255 := by
  intro heq
  have := congrArg UInt8.toNat heq
  rw [UInt8.toNat_ofNat_of_lt' (by simp [UInt8.size]; omega)] at this
  have h255 : (255 : UInt8).toNat = 255 := rfl
  omega

theorem carry_inj {a b : UInt8} (ha : a ≠ 255) (hb : b ≠ 255) :
    ∀ {k j : Nat} {r s : Bytes},
      List.replicate k 255 ++ a :: r = List.replicate j 255 ++ b :: s →
        k = j ∧ a = b ∧ r = s
  | 0, 0, r, s, h => by simpa using h
  | 0, j + 1, r, s, h => by
    rw [List.replicate_succ] at h
    exact absurd (by simpa using congrArg List.head? h) ha
  | k + 1, 0, r, s, h => by
    rw [List.replicate_succ] at h
    exact absurd (by simpa using (congrArg List.head? h).symm) hb
  | k + 1, j + 1, r, s, h => by
    rw [List.replicate_succ, List.replicate_succ, List.cons_append, List.cons_append,
      List.cons.injEq] at h
    obtain ⟨hkj, hrest⟩ := carry_inj ha hb h.2
    exact ⟨by rw [hkj], hrest⟩

theorem lengthCode_append_inj {n m : Nat} {r s : Bytes}
    (h : lengthCode n ++ r = lengthCode m ++ s) : n = m ∧ r = s := by
  unfold lengthCode at h
  rw [List.append_assoc, List.append_assoc, List.singleton_append, List.singleton_append] at h
  have hn : n % 255 < 255 := Nat.mod_lt n (by omega)
  have hm : m % 255 < 255 := Nat.mod_lt m (by omega)
  obtain ⟨hq, hr, hrest⟩ := carry_inj (ofNat_ne_255 hn) (ofNat_ne_255 hm) h
  have hrem : n % 255 = m % 255 := by
    have := congrArg UInt8.toNat hr
    rwa [UInt8.toNat_ofNat_of_lt' (by simp [UInt8.size]; omega),
      UInt8.toNat_ofNat_of_lt' (by simp [UInt8.size]; omega)] at this
  exact ⟨by omega, hrest⟩

theorem lengthPrefixed_collisionFree : CollisionFree lengthPrefixed where
  injective x y h := (lengthCode_append_inj h).2
  prefixFree x y h := by
    obtain ⟨r, hr⟩ := h
    unfold lengthPrefixed at hr ⊢
    rw [List.append_assoc] at hr
    obtain ⟨hlen, hrest⟩ := lengthCode_append_inj hr
    have hnil : r = [] := by
      have := congrArg List.length hrest
      rw [List.length_append] at this
      exact List.length_eq_zero_iff.mp (by omega)
    rw [hnil, List.append_nil] at hrest
    rw [hrest]

end Digest

end HomelabMcp
