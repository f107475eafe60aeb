import HomelabMcp.Lib.SortKey
import HomelabMcp.Lib.Text

/-!
# Instants and their ISO 8601 texts

A point in time to the millisecond, as the fields of its UTC date, and the text
of fixed width that `Date.prototype.toISOString` prints for it.

- `fixedWidth_le`: texts that follow one layout compare as their fields do,
  whatever the separators are.
- `readFields`: reading a layout back; a text with another separator is not read.
-/

namespace HomelabMcp

open SortKey Text SlashPath

/-- A date of the years 0 to 9999, whose texts all have the same width. -/
structure Instant where
  year : Nat
  month : Nat
  day : Nat
  hour : Nat
  minute : Nat
  second : Nat
  milli : Nat
  valid : year < 10000 ∧ month < 100 ∧ day < 100 ∧ hour < 100 ∧ minute < 100 ∧ second < 100 ∧
    milli < 1000
  deriving DecidableEq

namespace Instant

/-- The fields from the largest unit to the smallest. -/
def fields (i : Instant) : List Nat :=
  [i.year, i.month, i.day, i.hour, i.minute, i.second, i.milli]

theorem fields_injective : Function.Injective fields := by
  intro i j h
  cases i
  cases j
  simp only [fields, List.cons.injEq] at h
  obtain ⟨rfl, rfl, rfl, rfl, rfl, rfl, rfl, -⟩ := h
  rfl

/-- Chronological order. -/
def before (i j : Instant) : Prop :=
  lexLe j.fields i.fields = false

instance : DecidableRel before := fun i j =>
  inferInstanceAs (Decidable (lexLe j.fields i.fields = false))

theorem not_before_iff {i j : Instant} : ¬ before i j ↔ lexLe j.fields i.fields = true := by
  unfold before
  cases lexLe j.fields i.fields <;> simp

theorem before_irrefl (i : Instant) : ¬ before i i := by
  rw [not_before_iff]
  rcases lexLe_total i.fields i.fields with h | h <;> exact h

theorem before.ne {i j : Instant} (h : before i j) : i ≠ j := by
  rintro rfl
  exact before_irrefl i h

end Instant

/-! ## Texts of fixed width -/

namespace Iso

/-- The last `w` decimal digits of `n`. -/
def pad : Nat → Nat → Str
  | 0, _ => []
  | w + 1, n => pad w (n / 10) ++ [Nat.digitChar (n % 10)]

theorem length_pad (w n : Nat) : (pad w n).length = w := by
  induction w generalizing n with
  | zero => rfl
  | succ w ih => rw [pad, List.length_append, ih, List.length_singleton]

/-- Fields of given widths, each closed by a character. -/
def fixedWidth : List (Nat × Char) → List Nat → Str
  | (w, c) :: spec, n :: l => pad w n ++ c :: fixedWidth spec l
  | _, _ => []

/-- `n` has at most `w` digits, field by field. -/
def Fits : List (Nat × Char) → List Nat → Prop
  | (w, _) :: spec, n :: l => n < 10 ^ w ∧ Fits spec l
  | [], [] => True
  | _, _ => False

/-- The sort key of a text. -/
def textKey (s : Str) : List Nat :=
  s.map Char.toNat

/-- Two texts that start alike compare as their rests do. -/
theorem lexLe_append_left (a l m : List Nat) : lexLe (a ++ l) (a ++ m) = lexLe l m := by
  induction a with
  | nil => rfl
  | cons n a ih => simp [lexLe, ih]

/-- Two texts that start with different texts of one length compare as these do. -/
theorem lexLe_append_of_ne {a b : List Nat} (hlen : a.length = b.length) (hne : a ≠ b)
    (l m : List Nat) : lexLe (a ++ l) (b ++ m) = lexLe a b := by
  induction a generalizing b with
  | nil => exact absurd (List.length_eq_zero_iff.mp hlen.symm).symm hne
  | cons x a ih =>
    cases b with
    | nil => cases hlen
    | cons y b =>
      simp only [List.cons_append, lexLe]
      by_cases hxy : x = y
      · have hab : a ≠ b := by
          rintro rfl
          exact hne (by rw [hxy])
        rw [ih (by simpa using hlen) hab]
      · simp [hxy]

theorem digitChar_toNat : ∀ {n : Nat}, n < 10 → (Nat.digitChar n).toNat = n + 48 := by
  decide

theorem textKey_pad_succ (w n : Nat) :
    textKey (pad (w + 1) n) = textKey (pad w (n / 10)) ++ [n % 10 + 48] := by
  unfold textKey
  rw [pad, List.map_append, List.map_singleton, digitChar_toNat (Nat.mod_lt n (by omega))]

theorem pad_injOn {w m n : Nat} (hm : m < 10 ^ w) (hn : n < 10 ^ w)
    (h : textKey (pad w m) = textKey (pad w n)) : m = n := by
  induction w generalizing m n with
  | zero => omega
  | succ w ih =>
    rw [textKey_pad_succ, textKey_pad_succ] at h
    obtain ⟨hhigh, hlow⟩ := List.append_inj' h rfl
    have hdiv := ih (m := m / 10) (n := n / 10) (by omega) (by omega) hhigh
    have hmod : m % 10 = n % 10 := by simpa using hlow
    omega

/-- Numerals of one width compare as their numbers. -/
theorem lexLe_pad {w m n : Nat} (hm : m < 10 ^ w) (hn : n < 10 ^ w) :
    lexLe (textKey (pad w m)) (textKey (pad w n)) = decide (m ≤ n) := by
  induction w generalizing m n with
  | zero =>
    have hm0 : m = 0 := by omega
    have hn0 : n = 0 := by omega
    subst hm0 hn0
    rfl
  | succ w ih =>
    rw [textKey_pad_succ, textKey_pad_succ]
    by_cases hdiv : m / 10 = n / 10
    · rw [hdiv, lexLe_append_left]
      simp only [lexLe, Bool.and_true]
      rw [Bool.eq_iff_iff]
      simp only [Bool.or_eq_true, decide_eq_true_eq]
      omega
    · rw [lexLe_append_of_ne (by simp [textKey, length_pad])
        (fun h => hdiv (pad_injOn (w := w) (by omega) (by omega) h)), ih (by omega) (by omega)]
      exact decide_eq_decide.mpr (by omega)

/-- Texts of one layout compare as their fields do. -/
theorem fixedWidth_le {spec : List (Nat × Char)} {l m : List Nat} (hl : Fits spec l)
    (hm : Fits spec m) :
    lexLe (textKey (fixedWidth spec l)) (textKey (fixedWidth spec m)) = lexLe l m := by
  induction spec generalizing l m with
  | nil =>
    cases l with
    | nil =>
      cases m with
      | nil => rfl
      | cons b m => exact hm.elim
    | cons a l => exact hl.elim
  | cons e spec ih =>
    obtain ⟨w, c⟩ := e
    cases l with
    | nil => exact hl.elim
    | cons a l =>
      cases m with
      | nil => exact hm.elim
      | cons b m =>
        obtain ⟨ha, hl⟩ := hl
        obtain ⟨hb, hm⟩ := hm
        simp only [fixedWidth, textKey, List.map_append, List.map_cons, lexLe]
        by_cases hab : a = b
        · subst hab
          rw [lexLe_append_left]
          simpa [lexLe, textKey] using ih hl hm
        · have hne : textKey (pad w a) ≠ textKey (pad w b) := fun h => hab (pad_injOn ha hb h)
          have hpad := lexLe_append_of_ne (by simp [textKey, length_pad]) hne
          simp only [textKey] at hpad
          rw [hpad]
          have hle := lexLe_pad ha hb
          simp only [textKey] at hle
          rw [hle]
          simp only [hab, decide_false, Bool.false_and, Bool.or_false]
          exact decide_eq_decide.mpr (by omega)

/-! ## Reading a layout -/

/-- A field of `w` digits. -/
def readDigits : Nat → Nat → Str → Option (Nat × Str)
  | 0, n, s => some (n, s)
  | w + 1, n, c :: s => if c.isDigit then readDigits w (10 * n + (c.toNat - 48)) s else none
  | _ + 1, _, [] => none

/-- The fields of a text that follows a layout. -/
def readFields : List (Nat × Char) → Str → Option (List Nat)
  | [], s => if s = [] then some [] else none
  | (w, c) :: spec, s =>
    match readDigits w 0 s with
    | some (n, d :: r) => if d = c then (readFields spec r).map (n :: ·) else none
    | _ => none

theorem readDigits_digits {t : Str} (ht : ∀ c ∈ t, c.isDigit) (k : Nat) (s : Str) :
    ∃ v, readDigits t.length k (t ++ s) = some (v, s) := by
  induction t generalizing k with
  | nil => exact ⟨k, rfl⟩
  | cons c t ih =>
    have hc : c.isDigit := ht c List.mem_cons_self
    simp only [List.length_cons, List.cons_append, readDigits, hc, if_true]
    exact ih (fun d hd => ht d (List.mem_cons_of_mem c hd)) _

theorem isDigit_digitChar : ∀ {n : Nat}, n < 10 → (Nat.digitChar n).isDigit = true := by
  decide

theorem isDigit_of_mem_pad {w n : Nat} {c : Char} (h : c ∈ pad w n) : c.isDigit = true := by
  induction w generalizing n with
  | zero => cases h
  | succ w ih =>
    rw [pad, List.mem_append, List.mem_singleton] at h
    rcases h with h | rfl
    · exact ih h
    · exact isDigit_digitChar (Nat.mod_lt n (by omega))

/-- A text of a layout with the same widths but another closing character is
not read. -/
theorem readFields_eq_none {spec spec' : List (Nat × Char)}
    (hwidth : spec.map Prod.fst = spec'.map Prod.fst) (hne : spec ≠ spec') {l : List Nat}
    (hl : Fits spec' l) : readFields spec (fixedWidth spec' l) = none := by
  induction spec generalizing spec' l with
  | nil =>
    cases spec' with
    | nil => exact absurd rfl hne
    | cons e spec' => cases hwidth
  | cons e spec ih =>
    obtain ⟨w, c⟩ := e
    cases spec' with
    | nil => cases hwidth
    | cons e' spec' =>
      obtain ⟨w', c'⟩ := e'
      rw [List.map_cons, List.map_cons, List.cons.injEq] at hwidth
      obtain ⟨rfl, hwidth⟩ := hwidth
      cases l with
      | nil => exact hl.elim
      | cons n l =>
        obtain ⟨v, hv⟩ := readDigits_digits (t := pad w n) (fun _ => isDigit_of_mem_pad) 0
          (c' :: fixedWidth spec' l)
        rw [length_pad] at hv
        simp only [fixedWidth, readFields, hv]
        by_cases hc : c' = c
        · rw [if_pos hc, ih hwidth (fun h => hne (by rw [h, hc])) hl.2]
          rfl
        · rw [if_neg hc]

/-! ## The ISO layout -/

def isoLayout : List (Nat × Char) :=
  [(4, '-'), (2, '-'), (2, 'T'), (2, ':'), (2, ':'), (2, '.'), (3, 'Z')]

/-- `date.toISOString()`. -/
def toISOString (i : Instant) : Str :=
  fixedWidth isoLayout i.fields

/-- `new Date(s)` of a text with the layout that `toISOString` prints, by its
fields; `none` is the invalid date, whose time is NaN. -/
def dateTime (s : Str) : Option (List Nat) :=
  readFields isoLayout s

theorem fits_fields {spec : List (Nat × Char)} (hspec : spec.map Prod.fst = [4, 2, 2, 2, 2, 2, 3])
    (i : Instant) : Fits spec i.fields := by
  obtain ⟨h1, h2, h3, h4, h5, h6, h7⟩ := i.valid
  match spec, hspec with
  | [(_, _), (_, _), (_, _), (_, _), (_, _), (_, _), (_, _)], hspec =>
    simp only [List.map_cons, List.map_nil, List.cons.injEq] at hspec
    obtain ⟨rfl, rfl, rfl, rfl, rfl, rfl, rfl, -⟩ := hspec
    exact ⟨h1, h2, h3, h4, h5, h6, h7, trivial⟩

theorem toISOString_injective : Function.Injective toISOString := by
  intro i j h
  have hi : Fits isoLayout i.fields := fits_fields rfl i
  have hj : Fits isoLayout j.fields := fits_fields rfl j
  have hle : lexLe i.fields j.fields = true := by
    rw [← fixedWidth_le hi hj]
    show lexLe (textKey (toISOString i)) (textKey (toISOString j)) = true
    rw [h]
    exact (lexLe_total _ _).elim id id
  have hge : lexLe j.fields i.fields = true := by
    rw [← fixedWidth_le hj hi]
    show lexLe (textKey (toISOString j)) (textKey (toISOString i)) = true
    rw [h]
    exact (lexLe_total _ _).elim id id
  exact Instant.fields_injective (lexLe_antisymm hle hge)

end Iso

end HomelabMcp
