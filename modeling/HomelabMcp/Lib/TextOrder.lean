import HomelabMcp.Lib.Instant
import HomelabMcp.Lib.Utf8

/-!
# Two orders of texts

A scripting runtime compares strings by their UTF-16 code units, a database by their
UTF-8 bytes. They differ only where characters beyond U+FFFF meet others beyond
U+D7FF.

- `unitLe_eq_byteLe`: against a text in ASCII the two agree.
- `isAscii_toISOString`: the texts of dates are in ASCII.
-/

namespace HomelabMcp.TextOrder

open SlashPath Text SortKey

/-- `a <= b`, by code units. -/
def unitLe (a b : Str) : Bool :=
  lexLe (codeUnits a) (codeUnits b)

/-- `a < b`. -/
def unitLt (a b : Str) : Bool :=
  !unitLe b a

/-- `a <= b` under the collation `BINARY`. -/
def byteLe (a b : Str) : Bool :=
  lexLe (byteKey (Utf8.encode a)) (byteKey (Utf8.encode b))

theorem unitLe_total (a b : Str) : unitLe a b = true ∨ unitLe b a = true :=
  lexLe_total _ _

theorem unitLe_trans {a b c : Str} (h₁ : unitLe a b = true) (h₂ : unitLe b c = true) :
    unitLe a c = true :=
  lexLe_trans h₁ h₂

theorem unitLe_antisymm {a b : Str} (h₁ : unitLe a b = true) (h₂ : unitLe b a = true) : a = b :=
  codeUnits_injective (lexLe_antisymm h₁ h₂)

theorem unitLt_asymm {a b : Str} (h : unitLt a b = true) : unitLt b a = false := by
  unfold unitLt at h ⊢
  rw [Bool.not_eq_true'] at h
  rw [Bool.not_eq_false']
  exact (unitLe_total a b).resolve_right (Bool.eq_false_iff.mp h)

theorem unitLt_connex {a b : Str} (h : unitLt a b = false) (h' : unitLt b a = false) : a = b := by
  unfold unitLt at h h'
  rw [Bool.not_eq_false'] at h h'
  exact unitLe_antisymm h' h

theorem unitLt_trans {a b c : Str} (h : unitLt a b = true) (h' : unitLt b c = true) :
    unitLt a c = true := by
  have hba := unitLt_asymm h
  unfold unitLt at h' hba ⊢
  rw [Bool.not_eq_true', Bool.eq_false_iff] at h' ⊢
  rw [Bool.not_eq_false'] at hba
  exact fun hca => h' (unitLe_trans hca hba)

/-! ## Texts in ASCII -/

def IsAscii (s : Str) : Prop :=
  ∀ c ∈ s, c.toNat < 128

/-- The bytes of a character, as numbers. -/
def charBytes (c : Char) : List Nat :=
  byteKey (Utf8.encodeChar c)

theorem byteKey_encode_cons (c : Char) (s : Str) :
    byteKey (Utf8.encode (c :: s)) = charBytes c ++ byteKey (Utf8.encode s) := by
  rw [Utf8.encode_cons]
  exact List.map_append

theorem charUnits_ascii {c : Char} (hc : c.toNat < 128) : charUnits c = [c.toNat] :=
  if_pos (Nat.lt_trans hc (by decide))

theorem charBytes_ascii {c : Char} (hc : c.toNat < 128) : charBytes c = [c.toNat] := by
  unfold charBytes byteKey Utf8.encodeChar
  dsimp only
  rw [if_pos hc, List.map_singleton, Utf8.toNat_ofNat (by omega)]

/-- Other characters begin beyond ASCII, in both encodings. -/
theorem charUnits_beyond {c : Char} (hc : ¬ c.toNat < 128) :
    ∃ n rest, charUnits c = n :: rest ∧ 128 ≤ n := by
  unfold charUnits
  dsimp only
  split
  · exact ⟨_, _, rfl, by omega⟩
  · exact ⟨_, _, rfl, by omega⟩

theorem charBytes_beyond {c : Char} (hc : ¬ c.toNat < 128) :
    ∃ n rest, charBytes c = n :: rest ∧ 128 ≤ n := by
  have hvalid : c.toNat < 0x110000 := by
    rcases c.valid with h | h
    · exact Nat.lt_trans h (by decide)
    · exact h.2
  have hbyte : ∀ {n : Nat}, 128 ≤ n → n < 256 → 128 ≤ (UInt8.ofNat n).toNat := by
    intro n hle hlt
    rw [Utf8.toNat_ofNat hlt]
    exact hle
  unfold charBytes byteKey Utf8.encodeChar
  dsimp only
  rw [if_neg hc]
  split
  · exact ⟨_, _, rfl, hbyte (by omega) (by omega)⟩
  · split
    · exact ⟨_, _, rfl, hbyte (by omega) (by omega)⟩
    · exact ⟨_, _, rfl, hbyte (by omega) (by omega)⟩

/-- A text in ASCII stands before a character that begins beyond it. -/
theorem lexLe_beyond {d n : Nat} (hd : d < 128) (hn : 128 ≤ n) (l m : List Nat) :
    lexLe (d :: l) (n :: m) = true ∧ lexLe (n :: m) (d :: l) = false := by
  constructor
  · exact lexLe_cons.mpr (Or.inl (by omega))
  · rw [Bool.eq_false_iff, ne_eq, lexLe_cons]
    omega

/-- Against a text in ASCII the two orders agree. -/
theorem unitLe_eq_byteLe {s t : Str} (ht : IsAscii t) :
    unitLe s t = byteLe s t ∧ unitLe t s = byteLe t s := by
  induction t generalizing s with
  | nil =>
    cases s with
    | nil => exact ⟨rfl, rfl⟩
    | cons c s =>
      refine ⟨?_, rfl⟩
      have hunits : unitLe (c :: s) [] = false := by
        obtain ⟨n, rest, hrest⟩ := List.exists_cons_of_ne_nil (charUnits_ne_nil c)
        show lexLe (charUnits c ++ codeUnits s) [] = false
        rw [hrest]
        rfl
      have hbytes : byteLe (c :: s) [] = false := by
        show lexLe (byteKey (Utf8.encode (c :: s))) [] = false
        rw [byteKey_encode_cons]
        by_cases hc : c.toNat < 128
        · rw [charBytes_ascii hc]
          rfl
        · obtain ⟨n, rest, hrest, -⟩ := charBytes_beyond hc
          rw [hrest]
          rfl
      rw [hunits, hbytes]
  | cons d t ih =>
    obtain ⟨hd, ht⟩ := List.forall_mem_cons.mp ht
    have hunits : codeUnits (d :: t) = d.toNat :: codeUnits t := by
      show charUnits d ++ codeUnits t = _
      rw [charUnits_ascii hd]
      rfl
    have hbytes : byteKey (Utf8.encode (d :: t)) = d.toNat :: byteKey (Utf8.encode t) := by
      rw [byteKey_encode_cons, charBytes_ascii hd]
      rfl
    unfold unitLe byteLe at ih ⊢
    rw [hunits, hbytes]
    cases s with
    | nil => exact ⟨rfl, rfl⟩
    | cons c s =>
      rw [byteKey_encode_cons]
      show lexLe (charUnits c ++ codeUnits s) _ = _ ∧ lexLe _ (charUnits c ++ codeUnits s) = _
      by_cases hc : c.toNat < 128
      · -- The same number heads both encodings, and the rests decide.
        obtain ⟨h₁, h₂⟩ := ih ht (s := s)
        rw [charUnits_ascii hc, charBytes_ascii hc]
        simp only [List.singleton_append, lexLe, h₁, h₂, and_self]
      · obtain ⟨n, rest, hn, hle⟩ := charUnits_beyond hc
        obtain ⟨b, rest', hb, hle'⟩ := charBytes_beyond hc
        rw [hn, hb]
        obtain ⟨h₁, h₂⟩ := lexLe_beyond hd hle (codeUnits t) (rest ++ codeUnits s)
        obtain ⟨h₃, h₄⟩ :=
          lexLe_beyond hd hle' (byteKey (Utf8.encode t)) (rest' ++ byteKey (Utf8.encode s))
        exact ⟨h₂.trans h₄.symm, h₁.trans h₃.symm⟩

theorem isAscii_fixedWidth {spec : List (Nat × Char)} (hspec : IsAscii (spec.map Prod.snd))
    (l : List Nat) : IsAscii (Iso.fixedWidth spec l) := by
  induction spec generalizing l with
  | nil => exact fun c hc => absurd hc List.not_mem_nil
  | cons field spec ih =>
    obtain ⟨w, close⟩ := field
    obtain ⟨hclose, hspec⟩ := List.forall_mem_cons.mp hspec
    cases l with
    | nil => exact fun c hc => absurd hc List.not_mem_nil
    | cons n l =>
      intro c hc
      rcases List.mem_append.mp hc with hc | hc
      · have hdigit := Iso.isDigit_of_mem_pad hc
        simp only [Char.isDigit, Bool.and_eq_true, decide_eq_true_eq] at hdigit
        exact Nat.lt_of_le_of_lt hdigit.2 (by decide)
      · rcases List.mem_cons.mp hc with rfl | hc
        · exact hclose
        · exact ih hspec l c hc

/-- The texts of dates are in ASCII. -/
theorem isAscii_toISOString (i : Instant) : IsAscii (Iso.toISOString i) :=
  isAscii_fixedWidth (by
    have hall : ((Iso.isoLayout.map Prod.snd).all fun c => decide (c.toNat < 128)) = true := by
      decide
    exact fun c hc => of_decide_eq_true (List.all_eq_true.mp hall c hc)) _

end HomelabMcp.TextOrder
