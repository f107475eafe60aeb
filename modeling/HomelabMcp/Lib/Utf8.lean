import HomelabMcp.Lib.Digest
import Mathlib.Algebra.Group.Nat.Defs

/-!
# UTF-8 as a runtime's strings use it

`encode` is the encoder of a string of Unicode scalar values; `decode` is the
lossy decoder of the WHATWG encoding standard, one byte at a time: a byte that
cannot continue the pending sequence ends it with one replacement character and
is then read again as a first byte.

- `decode_encode`: encoding then decoding is the identity.
- `encode_injective`, `zero_mem_encode`: what byte framing needs of names.
-/

namespace HomelabMcp.Utf8

/-- U+FFFD, the replacement character. -/
def replacement : Char := Char.ofNat 0xFFFD

/-! ## Encoding -/

def encodeChar (c : Char) : Bytes :=
  let n := c.toNat
  if n < 0x80 then [UInt8.ofNat n]
  else if n < 0x800 then [UInt8.ofNat (0xC0 + n / 64), UInt8.ofNat (0x80 + n % 64)]
  else if n < 0x10000 then
    [UInt8.ofNat (0xE0 + n / 4096), UInt8.ofNat (0x80 + n / 64 % 64),
      UInt8.ofNat (0x80 + n % 64)]
  else
    [UInt8.ofNat (0xF0 + n / 262144), UInt8.ofNat (0x80 + n / 4096 % 64),
      UInt8.ofNat (0x80 + n / 64 % 64), UInt8.ofNat (0x80 + n % 64)]

/-- `Buffer.from(s, "utf8")`. -/
def encode (s : List Char) : Bytes :=
  s.flatMap encodeChar

@[simp] theorem encode_nil : encode [] = [] := rfl

theorem encode_cons (c : Char) (s : List Char) : encode (c :: s) = encodeChar c ++ encode s :=
  List.flatMap_cons

theorem encode_append (s t : List Char) : encode (s ++ t) = encode s ++ encode t :=
  List.flatMap_append

/-! ## Decoding -/

/-- A sequence whose first bytes have been read: how many bytes it still needs,
the value so far, and the range its next byte must lie in. -/
structure Pending where
  needed : Nat
  value : Nat
  lower : Nat
  upper : Nat

/-- Read a first byte: what it emits and what it leaves pending. -/
def lead (b : Nat) : List Char × Option Pending :=
  if b < 0x80 then ([Char.ofNat b], none)
  else if b < 0xC2 then ([replacement], none)
  else if b < 0xE0 then ([], some ⟨1, b - 0xC0, 0x80, 0xBF⟩)
  else if b < 0xF0 then
    ([], some ⟨2, b - 0xE0, if b = 0xE0 then 0xA0 else 0x80, if b = 0xED then 0x9F else 0xBF⟩)
  else if b < 0xF5 then
    ([], some ⟨3, b - 0xF0, if b = 0xF0 then 0x90 else 0x80, if b = 0xF4 then 0x8F else 0xBF⟩)
  else ([replacement], none)

def decodeFrom : Option Pending → Bytes → List Char
  | none, [] => []
  | some _, [] => [replacement]
  | none, b :: l => (lead b.toNat).1 ++ decodeFrom (lead b.toNat).2 l
  | some p, b :: l =>
    if p.lower ≤ b.toNat ∧ b.toNat ≤ p.upper then
      let value := p.value * 64 + (b.toNat - 0x80)
      if p.needed = 1 then Char.ofNat value :: decodeFrom none l
      else decodeFrom (some ⟨p.needed - 1, value, 0x80, 0xBF⟩) l
    else replacement :: ((lead b.toNat).1 ++ decodeFrom (lead b.toNat).2 l)

/-- `buf.toString("utf8")`. -/
def decode (b : Bytes) : List Char :=
  decodeFrom none b

/-- What is decoded of the first bytes is decoded of all of them, but for a character that is
cut off. -/
theorem decodeFrom_append (state : Option Pending) (a l : Bytes) : ∃ first,
    first <+: decodeFrom state (a ++ l) ∧
      (decodeFrom state a = first ∨ decodeFrom state a = first ++ [replacement]) := by
  have hafter {front : List Char} {state : Option Pending} {a : Bytes} (h : ∃ first,
      first <+: decodeFrom state (a ++ l) ∧
        (decodeFrom state a = first ∨ decodeFrom state a = first ++ [replacement])) : ∃ first,
      first <+: front ++ decodeFrom state (a ++ l) ∧ (front ++ decodeFrom state a = first ∨
        front ++ decodeFrom state a = first ++ [replacement]) := by
    obtain ⟨first, hprefix, hfirst⟩ := h
    refine ⟨front ++ first, (List.prefix_append_right_inj front).mpr hprefix, ?_⟩
    refine hfirst.imp (congrArg (front ++ ·)) fun h => ?_
    rw [h, List.append_assoc]
  induction a generalizing state with
  | nil =>
    cases state with
    | none => exact ⟨[], List.nil_prefix, Or.inl rfl⟩
    | some p => exact ⟨[], List.nil_prefix, Or.inr rfl⟩
  | cons b a ih =>
    cases state with
    | none => exact hafter (ih (lead b.toNat).2)
    | some p =>
      have hbad := @hafter (replacement :: (lead b.toNat).1) _ _ (ih (lead b.toNat).2)
      rw [List.cons_append]
      unfold decodeFrom
      split
      · dsimp only
        split
        · exact @hafter [_] _ _ (ih none)
        · exact ih _
      · exact hbad

theorem decode_take (b : Bytes) (k : Nat) : ∃ first, first <+: decode b ∧
    (decode (b.take k) = first ∨ decode (b.take k) = first ++ [replacement]) := by
  have happend := decodeFrom_append none (b.take k) (b.drop k)
  rw [List.take_append_drop] at happend
  exact happend

/-! ## Round trip -/

theorem toNat_ofNat {n : Nat} (h : n < 256) : (UInt8.ofNat n).toNat = n :=
  UInt8.toNat_ofNat_of_lt' (by simpa [UInt8.size] using h)

theorem scalar_range (c : Char) : c.toNat < 0xD800 ∨ (0xDFFF < c.toNat ∧ c.toNat < 0x110000) :=
  c.valid

/-- One continuation byte in range, with more to come. -/
theorem decodeFrom_more {p : Pending} {n : Nat} {l : Bytes} (hn : n < 256)
    (hlow : p.lower ≤ n) (hup : n ≤ p.upper) (hneed : p.needed ≠ 1) :
    decodeFrom (some p) (UInt8.ofNat n :: l) =
      decodeFrom (some ⟨p.needed - 1, p.value * 64 + (n - 0x80), 0x80, 0xBF⟩) l := by
  rw [decodeFrom, toNat_ofNat hn, if_pos ⟨hlow, hup⟩]
  exact if_neg hneed

/-- The last continuation byte. -/
theorem decodeFrom_last {p : Pending} {n : Nat} {l : Bytes} (hn : n < 256)
    (hlow : p.lower ≤ n) (hup : n ≤ p.upper) (hneed : p.needed = 1) :
    decodeFrom (some p) (UInt8.ofNat n :: l) =
      Char.ofNat (p.value * 64 + (n - 0x80)) :: decodeFrom none l := by
  rw [decodeFrom, toNat_ofNat hn, if_pos ⟨hlow, hup⟩]
  exact if_pos hneed

theorem decodeFrom_lead {n : Nat} {l : Bytes} (hn : n < 256) :
    decodeFrom none (UInt8.ofNat n :: l) = (lead n).1 ++ decodeFrom (lead n).2 l := by
  rw [decodeFrom, toNat_ofNat hn]

theorem decodeFrom_encodeChar (c : Char) (l : Bytes) :
    decodeFrom none (encodeChar c ++ l) = c :: decodeFrom none l := by
  have hscalar := scalar_range c
  have hback : Char.ofNat c.toNat = c := Char.ofNat_toNat c
  unfold encodeChar
  by_cases h1 : c.toNat < 0x80
  · simp only [if_pos h1, List.cons_append, List.nil_append]
    rw [decodeFrom_lead (by omega)]
    simp only [lead, if_pos h1, List.cons_append, List.nil_append, hback]
  by_cases h2 : c.toNat < 0x800
  · simp only [if_neg h1, if_pos h2, List.cons_append, List.nil_append]
    rw [decodeFrom_lead (by omega)]
    have hlead : lead (0xC0 + c.toNat / 64) = ([], some ⟨1, c.toNat / 64, 0x80, 0xBF⟩) := by
      unfold lead
      rw [if_neg (by omega), if_neg (by omega), if_pos (by omega), Nat.add_sub_cancel_left]
    rw [hlead, List.nil_append, decodeFrom_last (by omega) (by simp) (by simp; omega) rfl]
    rw [show c.toNat / 64 * 64 + (0x80 + c.toNat % 64 - 0x80) = c.toNat by omega, hback]
  by_cases h3 : c.toNat < 0x10000
  · simp only [if_neg h1, if_neg h2, if_pos h3, List.cons_append, List.nil_append]
    rw [decodeFrom_lead (by omega)]
    have hlead : ∃ lo up, lead (0xE0 + c.toNat / 4096) = ([], some ⟨2, c.toNat / 4096, lo, up⟩) ∧
        lo ≤ 0x80 + c.toNat / 64 % 64 ∧ 0x80 + c.toNat / 64 % 64 ≤ up := by
      unfold lead
      rw [if_neg (by omega), if_neg (by omega), if_neg (by omega), if_pos (by omega),
        Nat.add_sub_cancel_left]
      refine ⟨_, _, rfl, ?_, ?_⟩
      · split <;> omega
      · split <;> omega
    obtain ⟨lo, up, hlead, hlo, hup⟩ := hlead
    rw [hlead, List.nil_append, decodeFrom_more (by omega) hlo hup (by simp),
      decodeFrom_last (by omega) (by simp) (by simp; omega) rfl]
    simp only
    rw [show (c.toNat / 4096 * 64 + (0x80 + c.toNat / 64 % 64 - 0x80)) * 64 +
      (0x80 + c.toNat % 64 - 0x80) = c.toNat by omega, hback]
  · simp only [if_neg h1, if_neg h2, if_neg h3, List.cons_append, List.nil_append]
    rw [decodeFrom_lead (by omega)]
    have hlead : ∃ lo up,
        lead (0xF0 + c.toNat / 262144) = ([], some ⟨3, c.toNat / 262144, lo, up⟩) ∧
        lo ≤ 0x80 + c.toNat / 4096 % 64 ∧ 0x80 + c.toNat / 4096 % 64 ≤ up := by
      unfold lead
      rw [if_neg (by omega), if_neg (by omega), if_neg (by omega), if_neg (by omega),
        if_pos (by omega), Nat.add_sub_cancel_left]
      refine ⟨_, _, rfl, ?_, ?_⟩
      · split <;> omega
      · split <;> omega
    obtain ⟨lo, up, hlead, hlo, hup⟩ := hlead
    rw [hlead, List.nil_append, decodeFrom_more (by omega) hlo hup (by simp),
      decodeFrom_more (by omega) (by simp) (by simp; omega) (by simp),
      decodeFrom_last (by omega) (by simp) (by simp; omega) rfl]
    simp only
    rw [show ((c.toNat / 262144 * 64 + (0x80 + c.toNat / 4096 % 64 - 0x80)) * 64 +
      (0x80 + c.toNat / 64 % 64 - 0x80)) * 64 + (0x80 + c.toNat % 64 - 0x80) = c.toNat by omega,
      hback]

/-- Encoding then decoding is the identity. -/
@[simp] theorem decode_encode (s : List Char) : decode (encode s) = s := by
  unfold decode
  induction s with
  | nil => rfl
  | cons c s ih => rw [encode_cons, decodeFrom_encodeChar, ih]

theorem encode_injective : Function.Injective encode := fun s t h => by
  rw [← decode_encode s, h, decode_encode]

/-- Only the NUL character encodes to a zero byte. -/
theorem zero_mem_encodeChar {c : Char} (h : (0 : UInt8) ∈ encodeChar c) : c.toNat = 0 := by
  have hval : ∀ n : Nat, n < 256 → (0 : UInt8) = UInt8.ofNat n → n = 0 := by
    intro n hn heq
    have := congrArg UInt8.toNat heq
    rw [toNat_ofNat hn] at this
    exact this.symm
  have hscalar := scalar_range c
  simp only [encodeChar] at h
  split at h
  · exact hval _ (by omega) (List.mem_singleton.mp h)
  split at h
  · simp only [List.mem_cons, List.not_mem_nil, or_false] at h
    rcases h with h | h <;> have := hval _ (by omega) h <;> omega
  split at h
  · simp only [List.mem_cons, List.not_mem_nil, or_false] at h
    rcases h with h | h | h <;> have := hval _ (by omega) h <;> omega
  · simp only [List.mem_cons, List.not_mem_nil, or_false] at h
    rcases h with h | h | h | h <;> have := hval _ (by omega) h <;> omega

theorem zero_mem_encode {s : List Char} (h : (0 : UInt8) ∈ encode s) :
    ∃ c ∈ s, c.toNat = 0 := by
  obtain ⟨c, hc, hmem⟩ := List.mem_flatMap.mp h
  exact ⟨c, hc, zero_mem_encodeChar hmem⟩

/-! ## Bytes that are not valid -/

theorem decode_encode_append (s : List Char) (b : Bytes) :
    decode (encode s ++ b) = s ++ decode b := by
  unfold decode
  induction s with
  | nil => rfl
  | cons c s ih =>
    rw [encode_cons, List.append_assoc, decodeFrom_encodeChar, ih]
    rfl

/-- The next byte of a pending sequence is a continuation byte. -/
def Pending.Continues (p : Pending) : Prop :=
  0x80 ≤ p.lower ∧ p.upper ≤ 0xBF

theorem lead_continues {n : Nat} {p : Pending} (h : (lead n).2 = some p) : p.Continues := by
  unfold lead at h
  split_ifs at h <;> cases h <;> simp [Pending.Continues]

theorem none_continues : ∀ p ∈ (none : Option Pending), p.Continues := by
  rintro p ⟨⟩

/-- The first byte of a character is no continuation byte. -/
theorem encodeChar_lead (c : Char) :
    ∃ n rest, encodeChar c = UInt8.ofNat n :: rest ∧ n < 256 ∧ (n < 0x80 ∨ 0xBF < n) := by
  have hscalar := scalar_range c
  unfold encodeChar
  dsimp only
  by_cases h1 : c.toNat < 0x80
  · exact ⟨_, _, if_pos h1, by omega, by omega⟩
  by_cases h2 : c.toNat < 0x800
  · exact ⟨_, _, (if_neg h1).trans (if_pos h2), by omega, by omega⟩
  by_cases h3 : c.toNat < 0x10000
  · exact ⟨_, _, ((if_neg h1).trans (if_neg h2)).trans (if_pos h3), by omega, by omega⟩
  · exact ⟨_, _, ((if_neg h1).trans (if_neg h2)).trans (if_neg h3), by omega, by omega⟩

/-- A sequence cut short by the start of a character is one replacement. -/
theorem decodeFrom_append_encode {state : Option Pending}
    (hstate : ∀ p ∈ state, p.Continues) (b : Bytes) (s : List Char) :
    decodeFrom state (b ++ encode s) = decodeFrom state b ++ s := by
  induction b generalizing state with
  | nil =>
    cases state with
    | none => exact decode_encode s
    | some p =>
      cases s with
      | nil => rfl
      | cons c s =>
        obtain ⟨n, rest, hchar, hn, hlead⟩ := encodeChar_lead c
        have hp := hstate p rfl
        have hnone := decode_encode (c :: s)
        rw [decode, encode_cons, hchar, List.cons_append, decodeFrom_lead hn] at hnone
        have hout : ¬ (p.lower ≤ n ∧ n ≤ p.upper) := by
          have := hp.1
          have := hp.2
          omega
        rw [List.nil_append, encode_cons, hchar, List.cons_append, decodeFrom, decodeFrom,
          toNat_ofNat hn, if_neg hout, hnone]
        rfl
  | cons x b ih =>
    have hlead : ∀ p ∈ (lead x.toNat).2, p.Continues := fun p hp => lead_continues hp
    cases state with
    | none =>
      rw [List.cons_append, decodeFrom, decodeFrom, ih hlead, List.append_assoc]
    | some p =>
      rw [List.cons_append, decodeFrom, decodeFrom]
      by_cases hin : p.lower ≤ x.toNat ∧ x.toNat ≤ p.upper
      · simp only [if_pos hin]
        by_cases hlast : p.needed = 1
        · rw [if_pos hlast, if_pos hlast, ih none_continues]
          rfl
        · rw [if_neg hlast, if_neg hlast, ih]
          rintro _ ⟨⟩
          exact ⟨le_refl _, le_refl _⟩
      · rw [if_neg hin, if_neg hin, ih hlead, ← List.append_assoc]
        rfl

theorem decode_append_encode (b : Bytes) (s : List Char) :
    decode (b ++ encode s) = decode b ++ s :=
  decodeFrom_append_encode none_continues b s

/-- How many bytes a scalar value takes. -/
def width (n : Nat) : Nat :=
  if n < 0x80 then 1 else if n < 0x800 then 2 else if n < 0x10000 then 3 else 4

theorem width_mono {m n : Nat} (h : m ≤ n) : width m ≤ width n := by
  unfold width
  split_ifs <;> omega

theorem one_le_width (n : Nat) : 1 ≤ width n :=
  width_mono (Nat.zero_le n)

theorem length_encodeChar (c : Char) : (encodeChar c).length = width c.toNat := by
  unfold encodeChar width
  dsimp only
  split_ifs <;> rfl

/-- The least value that a pending sequence can end in. -/
def Pending.least (p : Pending) : Nat :=
  (p.value * 64 + (p.lower - 0x80)) * 64 ^ (p.needed - 1)

/-- One more than the greatest value that a pending sequence can end in. -/
def Pending.bound (p : Pending) : Nat :=
  (p.value * 64 + (p.upper - 0x80) + 1) * 64 ^ (p.needed - 1)

/-- `seen` bytes have been read, and every way to go on ends in a character that
takes those and the needed ones. -/
structure Pending.After (p : Pending) (seen : Nat) : Prop where
  needed_pos : 0 < p.needed
  total_le : seen + p.needed ≤ 4
  lower_ge : 0x80 ≤ p.lower
  wide : seen + p.needed ≤ width p.least
  scalar : p.bound ≤ 0xD800 ∨ (0xDFFF < p.least ∧ p.bound ≤ 0x110000)

theorem lead_after {n : Nat} {p : Pending} (h : (lead n).2 = some p) : p.After 1 := by
  unfold lead at h
  by_cases h1 : n < 0x80
  · rw [if_pos h1] at h
    cases h
  by_cases h2 : n < 0xC2
  · rw [if_neg h1, if_pos h2] at h
    cases h
  by_cases h3 : n < 0xE0
  · rw [if_neg h1, if_neg h2, if_pos h3] at h
    cases h
    have hleast : width 0x80 ≤ width (((n - 0xC0) * 64 + (0x80 - 0x80)) * 64 ^ (1 - 1)) :=
      width_mono (by omega)
    exact ⟨Nat.one_pos, by simp, le_refl _, hleast, Or.inl (by simp [Pending.bound]; omega)⟩
  by_cases h4 : n < 0xF0
  · rw [if_neg h1, if_neg h2, if_neg h3, if_pos h4] at h
    cases h
    refine ⟨by simp, by simp, ?_, ?_, ?_⟩
    · show 0x80 ≤ if n = 0xE0 then 0xA0 else 0x80
      split <;> omega
    · refine le_trans (le_of_eq (show 1 + 2 = width 0x800 from rfl)) (width_mono ?_)
      simp only [Pending.least]
      split <;> omega
    · simp only [Pending.bound, Pending.least]
      split <;> split <;> omega
  by_cases h5 : n < 0xF5
  · rw [if_neg h1, if_neg h2, if_neg h3, if_neg h4, if_pos h5] at h
    cases h
    refine ⟨by simp, by simp, ?_, ?_, ?_⟩
    · show 0x80 ≤ if n = 0xF0 then 0x90 else 0x80
      split <;> omega
    · refine le_trans (le_of_eq (show 1 + 3 = width 0x10000 from rfl)) (width_mono ?_)
      simp only [Pending.least]
      split <;> omega
    · simp only [Pending.bound, Pending.least]
      split <;> split <;> omega
  · rw [if_neg h1, if_neg h2, if_neg h3, if_neg h4, if_neg h5] at h
    cases h

/-- One continuation byte of several. -/
theorem Pending.After.next {p : Pending} {seen n : Nat} (h : p.After seen) (hlow : p.lower ≤ n)
    (hup : n ≤ p.upper) (hneed : p.needed ≠ 1) :
    Pending.After ⟨p.needed - 1, p.value * 64 + (n - 0x80), 0x80, 0xBF⟩ (seen + 1) := by
  obtain ⟨m, hm⟩ : ∃ m, p.needed = m + 2 := ⟨p.needed - 2, by have := h.needed_pos; omega⟩
  have hpow : 64 ^ (p.needed - 1) = 64 * 64 ^ m := by
    rw [hm, show m + 2 - 1 = m + 1 by omega, Nat.pow_succ, Nat.mul_comm]
  -- the values that are left are among those there were
  have hleast : p.least ≤ (p.value * 64 + (n - 0x80)) * 64 * 64 ^ m := by
    rw [Pending.least, hpow, Nat.mul_assoc]
    exact Nat.mul_le_mul_right _ (by omega)
  have hbound : ((p.value * 64 + (n - 0x80)) * 64 + 64) * 64 ^ m ≤ p.bound := by
    rw [Pending.bound, hpow, ← Nat.mul_assoc]
    exact Nat.mul_le_mul_right _ (by omega)
  have hnextLeast : Pending.least ⟨p.needed - 1, p.value * 64 + (n - 0x80), 0x80, 0xBF⟩ =
      (p.value * 64 + (n - 0x80)) * 64 * 64 ^ m := by
    rw [Pending.least, hm, Nat.sub_self, Nat.add_zero, show m + 2 - 1 - 1 = m from rfl]
  have hnextBound : Pending.bound ⟨p.needed - 1, p.value * 64 + (n - 0x80), 0x80, 0xBF⟩ =
      ((p.value * 64 + (n - 0x80)) * 64 + 64) * 64 ^ m := by
    rw [Pending.bound, hm, Nat.add_assoc, show m + 2 - 1 - 1 = m from rfl]
    show (_ * 64 + (0xBF - 0x80 + 1)) * 64 ^ m = _
    rw [show 0xBF - 0x80 + 1 = 64 from rfl]
  refine ⟨?_, ?_, le_refl _, ?_, ?_⟩
  · show 0 < p.needed - 1
    omega
  · show seen + 1 + (p.needed - 1) ≤ 4
    have := h.total_le
    omega
  · have hwide := width_mono hleast
    have := h.wide
    rw [hnextLeast]
    show seen + 1 + (p.needed - 1) ≤ _
    omega
  · rw [hnextLeast, hnextBound]
    have := h.scalar
    omega

/-- The last continuation byte. -/
theorem Pending.After.last {p : Pending} {seen n : Nat} (h : p.After seen) (hlow : p.lower ≤ n)
    (hup : n ≤ p.upper) (hneed : p.needed = 1) :
    seen + 1 ≤ (encodeChar (Char.ofNat (p.value * 64 + (n - 0x80)))).length := by
  have hleast : p.least = p.value * 64 + (p.lower - 0x80) := by
    rw [Pending.least, hneed, Nat.sub_self, Nat.pow_zero, Nat.mul_one]
  have hbound : p.bound = p.value * 64 + (p.upper - 0x80) + 1 := by
    rw [Pending.bound, hneed, Nat.sub_self, Nat.pow_zero, Nat.mul_one]
  have hvalid : (p.value * 64 + (n - 0x80)).isValidChar := by
    have hscalar := h.scalar
    rw [hleast, hbound] at hscalar
    rw [Nat.isValidChar]
    omega
  have hwide := h.wide
  have hvalue : (Char.ofNat (p.value * 64 + (n - 0x80))).toNat = p.value * 64 + (n - 0x80) := by
    rw [Char.ofNat, dif_pos hvalid]
    rfl
  rw [length_encodeChar, hvalue]
  rw [hneed, hleast] at hwide
  exact hwide.trans (width_mono (by omega))

/-- A first byte that leaves nothing pending has put out a character. -/
theorem lead_length {n : Nat} (h : (lead n).2 = none) : 1 ≤ (encode (lead n).1).length := by
  have hone : ∀ c, 1 ≤ (encode [c]).length := by
    intro c
    rw [encode_cons, List.length_append, length_encodeChar]
    exact (one_le_width _).trans (Nat.le_add_right _ _)
  unfold lead at h ⊢
  split_ifs at h ⊢ <;> exact hone _

/-- How far a decoder's state has read into a sequence. -/
def ReadInto : Option Pending → Nat → Prop
  | none, seen => seen = 0
  | some p, seen => p.After seen

theorem length_lead {n : Nat} {tail : Bytes}
    (ih : ∀ {state seen}, ReadInto state seen →
      seen + tail.length ≤ (encode (decodeFrom state tail)).length) :
    1 + tail.length ≤ (encode ((lead n).1 ++ decodeFrom (lead n).2 tail)).length := by
  rw [encode_append, List.length_append]
  cases hlead : (lead n).2 with
  | none =>
    have hout := lead_length hlead
    have hrest := ih (show ReadInto none 0 from rfl)
    omega
  | some p =>
    have hrest := ih (show ReadInto (some p) 1 from lead_after hlead)
    omega

theorem length_le_encode_decodeFrom {state : Option Pending} {seen : Nat}
    (hstate : ReadInto state seen) (b : Bytes) :
    seen + b.length ≤ (encode (decodeFrom state b)).length := by
  induction b generalizing state seen with
  | nil =>
    cases state with
    | none => exact hstate ▸ Nat.zero_le _
    | some p =>
      have hle : seen ≤ 3 := by
        have := hstate.needed_pos
        have := hstate.total_le
        omega
      exact hle
  | cons x b ih =>
    cases state with
    | none =>
      obtain rfl : seen = 0 := hstate
      rw [decodeFrom, Nat.zero_add, List.length_cons, Nat.add_comm]
      exact length_lead ih
    | some p =>
      rw [decodeFrom]
      by_cases hin : p.lower ≤ x.toNat ∧ x.toNat ≤ p.upper
      · simp only [if_pos hin]
        by_cases hlast : p.needed = 1
        · have hchar := Pending.After.last hstate hin.1 hin.2 hlast
          have hrest := ih (show ReadInto none 0 from rfl)
          rw [if_pos hlast, encode_cons, List.length_append, List.length_cons]
          omega
        · have hrest := ih (show ReadInto (some _) (seen + 1) from
            Pending.After.next hstate hin.1 hin.2 hlast)
          rw [if_neg hlast, List.length_cons]
          omega
      · have hle : seen ≤ 3 := by
          have := hstate.needed_pos
          have := hstate.total_le
          omega
        have hrest := length_lead (n := x.toNat) ih
        rw [if_neg hin, encode_cons, List.length_append, List.length_cons]
        have hthree : (encodeChar replacement).length = 3 := rfl
        omega

/-- Decoding never makes a text that takes fewer bytes. -/
theorem length_le_encode_decode (b : Bytes) : b.length ≤ (encode (decode b)).length := by
  have h := length_le_encode_decodeFrom (show ReadInto none 0 from rfl) b
  rwa [Nat.zero_add] at h

example : decode [0xC3, 0xA9, 0xFF, 0x41] = ['é', replacement, 'A'] := by decide

end HomelabMcp.Utf8
