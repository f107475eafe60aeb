import Mathlib.Algebra.Group.Nat.Defs
import Mathlib.Data.Nat.Log
import HomelabMcp.Lib.SlashPath

/-!
# Strings of a scripting runtime

The string functions that line-oriented parsers use, on strings as lists of
characters: `trim`, `lines`, `words`, numerals, and UTF-16 code units, which are
what string comparison and regular expressions see.

- `codeUnits_injective`: comparing code units compares strings.
- `numeral_injective`, `slash_notMem_numeral`: decimal numerals as path segments.
-/

namespace HomelabMcp.Text

def newline : Char := Char.ofNat 10

def tab : Char := Char.ofNat 9

def carriageReturn : Char := Char.ofNat 13

/-- `\s`: white space and line terminators. -/
def isSpace (c : Char) : Bool :=
  let n := c.toNat
  (9 ≤ n && n ≤ 13) || n == 0x20 || n == 0xA0 || n == 0x1680 || (0x2000 ≤ n && n ≤ 0x200A) ||
    n == 0x2028 || n == 0x2029 || n == 0x202F || n == 0x205F || n == 0x3000 || n == 0xFEFF

/-- The characters that `.` does not match. -/
def isLineTerminator (c : Char) : Bool :=
  let n := c.toNat
  n == 10 || n == 13 || n == 0x2028 || n == 0x2029

/-- `s.trim()`. -/
def trim (s : Str) : Str :=
  ((s.dropWhile isSpace).reverse.dropWhile isSpace).reverse

/-- `s.split("\n")`. -/
def lines (s : Str) : List Str :=
  List.splitOn newline s

/-- A line has no line feed. -/
theorem newline_notMem_of_mem_lines {s line : Str} (h : line ∈ lines s) : newline ∉ line :=
  SlashPath.notMem_of_mem_splitOn h

/-- `names.join(", ")`. -/
def commaJoin : List Str → Str
  | [] => []
  | [s] => s
  | s :: l => s ++ ", ".toList ++ commaJoin l

def consHead (c : Char) : List Str → List Str
  | [] => [[c]]
  | w :: ws => (c :: w) :: ws

/-- `s.split(/\s+/)`: a run of white space is one separator. -/
def words : Str → List Str
  | [] => [[]]
  | c :: l =>
    if isSpace c then
      if (l.head?.map isSpace).getD false then words l else [] :: words l
    else consHead c (words l)

/-- `s.toLowerCase()`, on ASCII letters. -/
def toLowerCase (s : Str) : Str :=
  s.map Char.toLower

/-- `s.includes(t)`. -/
def includes (s t : Str) : Bool :=
  decide (t <:+: s)

/-! ## Numerals -/

/-- `String(n)`. -/
def numeral (n : Nat) : Str :=
  Nat.toDigits 10 n

/-- `String(i)`. -/
def signedNumeral (i : Int) : Str :=
  if i < 0 then '-' :: numeral i.natAbs else numeral i.natAbs

/-- `parseInt(s)` of a string that starts with a decimal digit. -/
def parseInt (s : Str) : Nat :=
  Nat.ofDigitChars 10 (s.takeWhile Char.isDigit) 0

/-- `n / d` to the nearest integer, ties to the even one. -/
def roundHalfEven (n d : Nat) : Nat :=
  let q := n / d
  let r := n % d
  if 2 * r < d then q else if d < 2 * r then q + 1 else q + q % 2

/-- The integer part of the double nearest to `n / d`; `none` when it overflows. -/
def truncDouble (n d : Nat) : Option Nat :=
  if n < d then some (if d * (2 ^ 54 - 1) ≤ n * 2 ^ 54 then 1 else 0)
  else
    let e := Nat.log2 (n / d)
    if e < 52 then some (roundHalfEven (n * 2 ^ (52 - e)) d / 2 ^ (52 - e))
    else
      let value := roundHalfEven n (d * 2 ^ (e - 52)) * 2 ^ (e - 52)
      if value < 2 ^ 1024 then some value else none

/-- `Math.trunc(Number(s))` of a signed decimal numeral with an optional
fraction; `none` where the number is not finite. (Exponents and radix prefixes,
which no `-printf` directive produces, count as not a number here.) -/
def truncNumber (s : Str) : Option Int :=
  let t := trim s
  let neg := t.head? = some '-'
  let body := if neg ∨ t.head? = some '+' then t.drop 1 else t
  let whole := body.takeWhile Char.isDigit
  let rest := body.dropWhile Char.isDigit
  let frac := rest.drop 1
  if t = [] then some 0
  else if whole ++ frac = [] then none
  else if rest = [] ∨ (rest.head? = some '.' ∧ frac.all Char.isDigit) then
    (truncDouble (Nat.ofDigitChars 10 (whole ++ frac) 0) (10 ^ frac.length)).map
      fun n => if neg then -(n : Int) else n
  else none

example : truncNumber "1718000000.2500000000".toList = some 1718000000 := by decide

example : truncNumber "1718000000.9999999999".toList = some 1718000001 := by decide

theorem numeral_injective : Function.Injective numeral := fun a b h => by
  have := congrArg (Nat.ofDigitChars 10 · 0) h
  simpa [numeral, Nat.ofDigitChars_ten_toDigits] using this

theorem isDigit_of_mem_numeral {n : Nat} {c : Char} (h : c ∈ numeral n) : c.isDigit :=
  Nat.isDigit_of_mem_toDigits (by decide) (by decide) h

theorem slash_notMem_numeral (n : Nat) : '/' ∉ numeral n := fun h =>
  absurd (isDigit_of_mem_numeral h) (by decide)

theorem nul_notMem_numeral (n : Nat) : Char.ofNat 0 ∉ numeral n := fun h =>
  absurd (isDigit_of_mem_numeral h) (by decide)

/-! ## Code units -/

/-- The UTF-16 code units of a character. -/
def charUnits (c : Char) : List Nat :=
  let n := c.toNat
  if n < 0x10000 then [n]
  else [0xD800 + (n - 0x10000) / 0x400, 0xDC00 + (n - 0x10000) % 0x400]

/-- The UTF-16 code units of a string. -/
def codeUnits (s : Str) : List Nat :=
  s.flatMap charUnits

theorem codeUnits_append (s t : Str) : codeUnits (s ++ t) = codeUnits s ++ codeUnits t :=
  List.flatMap_append

theorem charUnits_append_inj {c d : Char} {r s : List Nat}
    (h : charUnits c ++ r = charUnits d ++ s) : c = d ∧ r = s := by
  have hc : c.toNat < 0xD800 ∨ (0xDFFF < c.toNat ∧ c.toNat < 0x110000) := c.valid
  have hd : d.toNat < 0xD800 ∨ (0xDFFF < d.toNat ∧ d.toNat < 0x110000) := d.valid
  have key : c.toNat = d.toNat ∧ r = s := by
    unfold charUnits at h
    by_cases h₁ : c.toNat < 0x10000 <;> by_cases h₂ : d.toNat < 0x10000
    · simpa [h₁, h₂] using h
    · simp only [if_pos h₁, if_neg h₂, List.cons_append, List.nil_append, List.cons.injEq] at h
      omega
    · simp only [if_neg h₁, if_pos h₂, List.cons_append, List.nil_append, List.cons.injEq] at h
      omega
    · simp only [if_neg h₁, if_neg h₂, List.cons_append, List.nil_append, List.cons.injEq] at h
      exact ⟨by omega, h.2.2⟩
  exact ⟨Char.toNat_inj.mp key.1, key.2⟩

theorem charUnits_ne_nil (c : Char) : charUnits c ≠ [] := by
  unfold charUnits
  dsimp only
  split <;> simp

theorem codeUnits_eq_nil {s : Str} (h : codeUnits s = []) : s = [] := by
  cases s with
  | nil => rfl
  | cons c s => exact absurd (List.append_eq_nil_iff.mp h).1 (charUnits_ne_nil c)

theorem codeUnits_injective : Function.Injective codeUnits := by
  intro s
  induction s with
  | nil => exact fun t h => (codeUnits_eq_nil h.symm).symm
  | cons c s ih =>
    intro t h
    cases t with
    | nil => exact codeUnits_eq_nil h
    | cons d t =>
      obtain ⟨hcd, hst⟩ := charUnits_append_inj (c := c) (d := d)
        (by simpa [codeUnits] using h)
      rw [hcd, ih hst]

/-- The character of a code unit that is not one half of a pair; encoders write
a lone surrogate as U+FFFD. -/
def unitChar (u : Nat) : Char :=
  if 0xD800 ≤ u ∧ u ≤ 0xDFFF then Char.ofNat 0xFFFD else Char.ofNat u

/-- The characters that code units stand for. -/
def fromUnits : List Nat → Str
  | [] => []
  | [u] => [unitChar u]
  | u :: v :: l =>
    if 0xD800 ≤ u ∧ u < 0xDC00 ∧ 0xDC00 ≤ v ∧ v ≤ 0xDFFF then
      Char.ofNat (0x10000 + (u - 0xD800) * 0x400 + (v - 0xDC00)) :: fromUnits l
    else unitChar u :: fromUnits (v :: l)

theorem fromUnits_charUnits (c : Char) (l : List Nat) :
    fromUnits (charUnits c ++ l) = c :: fromUnits l := by
  have hc : c.toNat < 0xD800 ∨ (0xDFFF < c.toNat ∧ c.toNat < 0x110000) := c.valid
  have hback : Char.ofNat c.toNat = c := Char.ofNat_toNat c
  unfold charUnits
  by_cases h : c.toNat < 0x10000
  · have hunit : unitChar c.toNat = c := by
      unfold unitChar
      rw [if_neg (by omega), hback]
    rw [if_pos h]
    cases l with
    | nil => simp [fromUnits, hunit]
    | cons v l =>
      rw [List.singleton_append, fromUnits, if_neg (by omega), hunit]
  · rw [if_neg h, List.cons_append, List.cons_append, List.nil_append, fromUnits,
      if_pos (by omega)]
    rw [show 0x10000 + (0xD800 + (c.toNat - 0x10000) / 0x400 - 0xD800) * 0x400 +
      (0xDC00 + (c.toNat - 0x10000) % 0x400 - 0xDC00) = c.toNat by omega, hback]

theorem fromUnits_codeUnits_append (s : Str) (l : List Nat) :
    fromUnits (codeUnits s ++ l) = s ++ fromUnits l := by
  induction s with
  | nil => rfl
  | cons c s ih =>
    rw [codeUnits, List.flatMap_cons, List.append_assoc, fromUnits_charUnits]
    exact congrArg (c :: ·) ih

theorem fromUnits_codeUnits (s : Str) : fromUnits (codeUnits s) = s := by
  have h := fromUnits_codeUnits_append s []
  rwa [List.append_nil, fromUnits, List.append_nil] at h

/-- The first half of a surrogate pair. -/
def IsHigh (u : Nat) : Prop :=
  0xD800 ≤ u ∧ u < 0xDC00

/-- The second half of a surrogate pair. -/
def IsLow (u : Nat) : Prop :=
  0xDC00 ≤ u ∧ u ≤ 0xDFFF

/-- Code units are read in two parts when no pair lies across the cut. -/
theorem fromUnits_append {l m : List Nat}
    (h : ∀ u ∈ l.getLast?, ∀ v ∈ m.head?, ¬ (IsHigh u ∧ IsLow v)) :
    fromUnits (l ++ m) = fromUnits l ++ fromUnits m := by
  induction l using fromUnits.induct with
  | case1 => rfl
  | case2 u =>
    cases m with
    | nil => rfl
    | cons v m =>
      have hcut := h u rfl v rfl
      have hpair : ¬ (0xD800 ≤ u ∧ u < 0xDC00 ∧ 0xDC00 ≤ v ∧ v ≤ 0xDFFF) := fun hp =>
        hcut ⟨⟨hp.1, hp.2.1⟩, hp.2.2⟩
      rw [List.singleton_append, fromUnits, fromUnits, if_neg hpair]
      rfl
  | case3 u v l hpair ih =>
    rw [List.cons_append, List.cons_append, fromUnits, if_pos hpair, fromUnits, if_pos hpair, ih]
    · rfl
    · intro w hw
      refine h w ?_
      rw [List.getLast?_cons_cons, List.getLast?_cons, Option.mem_def.mp hw]
      rfl
  | case4 u v l hpair ih =>
    rw [List.cons_append, List.cons_append, fromUnits, if_neg hpair, ← List.cons_append, ih,
      fromUnits, if_neg hpair]
    · rfl
    · intro w hw
      exact h w (by rwa [List.getLast?_cons_cons])

/-- A character does not begin with the second half of a pair. -/
theorem charUnits_lead (c : Char) : ∃ u rest, charUnits c = u :: rest ∧ ¬ IsLow u := by
  have hc : c.toNat < 0xD800 ∨ (0xDFFF < c.toNat ∧ c.toNat < 0x110000) := c.valid
  unfold charUnits IsLow
  by_cases h : c.toNat < 0x10000
  · exact ⟨_, _, if_pos h, by omega⟩
  · exact ⟨_, _, if_neg h, by omega⟩

/-- Whatever comes before them, whole characters are read as themselves. -/
theorem fromUnits_append_codeUnits (l : List Nat) (s : Str) :
    fromUnits (l ++ codeUnits s) = fromUnits l ++ s := by
  rw [fromUnits_append, fromUnits_codeUnits]
  intro u _ v hv hpair
  cases s with
  | nil => cases hv
  | cons c s =>
    obtain ⟨w, rest, hunits, hlead⟩ := charUnits_lead c
    rw [codeUnits, List.flatMap_cons, hunits] at hv
    cases hv
    exact hlead hpair.2

theorem fromUnits_between (before after : Str) (units : List Nat) :
    fromUnits (codeUnits before ++ units ++ codeUnits after) =
      before ++ fromUnits units ++ after := by
  rw [List.append_assoc, fromUnits_codeUnits_append, fromUnits_append_codeUnits,
    List.append_assoc]

end HomelabMcp.Text
