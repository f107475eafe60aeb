import HomelabMcp.Lib.Text

/-!
# JSON texts

Values, the text that `JSON.stringify` prints for them without indentation, and
the reader `JSON.parse`. A number is kept as the literal it is written with.

- `parse_stringify`: reading a printed value gives the value back.
-/

namespace HomelabMcp

open Text SlashPath

inductive Json
  | null
  | bool (b : Bool)
  | num (literal : Str)
  | str (s : Str)
  | arr (elements : List Json)
  | obj (members : List (Str × Json))

namespace Json

/-- A natural number. -/
def nat (n : Nat) : Json :=
  num (numeral n)

/-- `value[name]` of an object; the last member of a name counts. -/
def get? (name : Str) : Json → Option Json
  | obj members => (members.reverse.find? fun m => m.1 == name).map Prod.snd
  | _ => none

/-! ## Printing -/

def escapeChar (c : Char) : Str :=
  if c = '"' then ['\\', '"']
  else if c = '\\' then ['\\', '\\']
  else if c.toNat < 0x20 then
    if c.toNat = 8 then ['\\', 'b']
    else if c.toNat = 9 then ['\\', 't']
    else if c.toNat = 10 then ['\\', 'n']
    else if c.toNat = 12 then ['\\', 'f']
    else if c.toNat = 13 then ['\\', 'r']
    else ['\\', 'u', '0', '0', Nat.digitChar (c.toNat / 16), Nat.digitChar (c.toNat % 16)]
  else [c]

def quote (s : Str) : Str :=
  '"' :: (s.flatMap escapeChar ++ ['"'])

mutual

/-- `JSON.stringify(value)`. -/
def stringify : Json → Str
  | null => "null".toList
  | bool true => "true".toList
  | bool false => "false".toList
  | num literal => literal
  | str s => quote s
  | arr [] => ['[', ']']
  | arr (v :: l) => '[' :: (stringify v ++ stringifyElements l)
  | obj [] => ['\x7b', '\x7d']
  | obj ((name, v) :: l) => '\x7b' :: (quote name ++ ':' :: (stringify v ++ stringifyMembers l))

def stringifyElements : List Json → Str
  | [] => [']']
  | v :: l => ',' :: (stringify v ++ stringifyElements l)

def stringifyMembers : List (Str × Json) → Str
  | [] => ['\x7d']
  | (name, v) :: l => ',' :: (quote name ++ ':' :: (stringify v ++ stringifyMembers l))

end

/-! ## Reading -/

/-- The white space that may stand between the tokens of a text. -/
def isBlank (c : Char) : Bool :=
  c.toNat = 32 || c.toNat = 9 || c.toNat = 10 || c.toNat = 13

def skipBlank (s : Str) : Str :=
  s.dropWhile isBlank

def hexDigit (c : Char) : Option Nat :=
  let n := c.toNat
  if 48 ≤ n ∧ n ≤ 57 then some (n - 48)
  else if 97 ≤ n ∧ n ≤ 102 then some (n - 87)
  else if 65 ≤ n ∧ n ≤ 70 then some (n - 55)
  else none

def escapeUnit (c : Char) : Option Nat :=
  if c = '"' then some 34 else if c = '\\' then some 92 else if c = '/' then some 47
  else if c = 'b' then some 8 else if c = 'f' then some 12 else if c = 'n' then some 10
  else if c = 'r' then some 13 else if c = 't' then some 9 else none

/-- The code units of a string up to its closing quote, and what follows. -/
def readUnits : Str → Option (List Nat × Str)
  | [] => none
  | c :: r =>
    if c = '"' then some ([], r)
    else if c = '\\' then
      match r with
      | 'u' :: h₁ :: h₂ :: h₃ :: h₄ :: r =>
        match hexDigit h₁, hexDigit h₂, hexDigit h₃, hexDigit h₄, readUnits r with
        | some a, some b, some c, some d, some (units, r) =>
          some ((((a * 16 + b) * 16 + c) * 16 + d) :: units, r)
        | _, _, _, _, _ => none
      | e :: r =>
        match escapeUnit e, readUnits r with
        | some u, some (units, r) => some (u :: units, r)
        | _, _ => none
      | [] => none
    else if c.toNat < 0x20 then none
    else
      match readUnits r with
      | some (units, r) => some (charUnits c ++ units, r)
      | none => none

/-- A string after its opening quote. -/
def readString (s : Str) : Option (Str × Str) :=
  (readUnits s).map fun u => (fromUnits u.1, u.2)

def digits (s : Str) : Str :=
  s.takeWhile Char.isDigit

/-- A fraction or an exponent that needs at least one digit: what was read. -/
def readTail (lead : Str) (s : Str) : Option Str :=
  if digits s = [] then none else some (lead ++ digits s)

/-- The literal of a number at the head of a text. -/
def readNumber (s : Str) : Option (Str × Str) := do
  let sign : Str := if s.head? = some '-' then ['-'] else []
  let whole := digits (s.drop sign.length)
  if whole = [] ∨ (whole.head? = some '0' ∧ whole.length ≠ 1) then none
  let afterWhole := s.drop (sign ++ whole).length
  let frac ← if afterWhole.head? = some '.' then readTail ['.'] (afterWhole.drop 1) else some []
  let afterFrac := afterWhole.drop frac.length
  let expo ← match afterFrac with
    | e :: r =>
      if e = 'e' ∨ e = 'E' then
        if r.head? = some '+' ∨ r.head? = some '-' then readTail (e :: r.take 1) (r.drop 1)
        else readTail [e] r
      else some []
    | [] => some []
  some (sign ++ whole ++ frac ++ expo, afterFrac.drop expo.length)

mutual

/-- A value at the head of a text. Each call reads a character or is followed by
one that does, so twice the length of the text is enough fuel. -/
def readValue : Nat → Str → Option (Json × Str)
  | 0, _ => none
  | fuel + 1, s =>
    match s with
    | 'n' :: 'u' :: 'l' :: 'l' :: r => some (null, r)
    | 't' :: 'r' :: 'u' :: 'e' :: r => some (bool true, r)
    | 'f' :: 'a' :: 'l' :: 's' :: 'e' :: r => some (bool false, r)
    | '"' :: r => (readString r).map fun p => (str p.1, p.2)
    | '[' :: r =>
      match skipBlank r with
      | ']' :: r => some (arr [], r)
      | r => (readElements fuel r).map fun p => (arr p.1, p.2)
    | '\x7b' :: r =>
      match skipBlank r with
      | '\x7d' :: r => some (obj [], r)
      | r => (readMembers fuel r).map fun p => (obj p.1, p.2)
    | s => (readNumber s).map fun p => (num p.1, p.2)

/-- The elements of an array that has some, with the closing bracket. -/
def readElements : Nat → Str → Option (List Json × Str)
  | 0, _ => none
  | fuel + 1, s =>
    match readValue fuel s with
    | none => none
    | some (v, r) =>
      match skipBlank r with
      | ',' :: r => (readElements fuel (skipBlank r)).map fun p => (v :: p.1, p.2)
      | ']' :: r => some ([v], r)
      | _ => none

/-- The members of an object that has some, with the closing brace. -/
def readMembers : Nat → Str → Option (List (Str × Json) × Str)
  | 0, _ => none
  | fuel + 1, s =>
    match s with
    | '"' :: r =>
      match readString r with
      | none => none
      | some (name, r) =>
        match skipBlank r with
        | ':' :: r =>
          match readValue fuel (skipBlank r) with
          | none => none
          | some (v, r) =>
            match skipBlank r with
            | ',' :: r => (readMembers fuel (skipBlank r)).map fun p => ((name, v) :: p.1, p.2)
            | '\x7d' :: r => some ([(name, v)], r)
            | _ => none
        | _ => none
    | _ => none

end

/-- `JSON.parse(text)`; `none` where it throws. -/
def parse (text : Str) : Option Json :=
  match readValue (2 * text.length + 2) (skipBlank text) with
  | some (v, r) => if skipBlank r = [] then some v else none
  | none => none

/-! ## Round trip -/

theorem hexDigit_digitChar : ∀ {n : Nat}, n < 16 → hexDigit (Nat.digitChar n) = some n := by
  decide

theorem readUnits_escapeChar (c : Char) {r : Str} {units : List Nat} {rest : Str}
    (h : readUnits r = some (units, rest)) :
    readUnits (escapeChar c ++ r) = some (charUnits c ++ units, rest) := by
  have hunit : ∀ n : Nat, c.toNat = n → n < 0x10000 → charUnits c = [n] := by
    intro n hn hlt
    rw [charUnits, if_pos (by omega), hn]
  unfold escapeChar
  by_cases h34 : c = '"'
  · subst h34
    simp [readUnits, escapeUnit, h, charUnits]
  by_cases h92 : c = '\\'
  · subst h92
    simp [readUnits, escapeUnit, h, charUnits]
  rw [if_neg h34, if_neg h92]
  by_cases hcontrol : c.toNat < 0x20
  · rw [if_pos hcontrol]
    by_cases h8 : c.toNat = 8
    · rw [if_pos h8, hunit 8 h8 (by omega)]
      simp [readUnits, escapeUnit, h]
    by_cases h9 : c.toNat = 9
    · rw [if_neg h8, if_pos h9, hunit 9 h9 (by omega)]
      simp [readUnits, escapeUnit, h]
    by_cases h10 : c.toNat = 10
    · rw [if_neg h8, if_neg h9, if_pos h10, hunit 10 h10 (by omega)]
      simp [readUnits, escapeUnit, h]
    by_cases h12 : c.toNat = 12
    · rw [if_neg h8, if_neg h9, if_neg h10, if_pos h12, hunit 12 h12 (by omega)]
      simp [readUnits, escapeUnit, h]
    by_cases h13 : c.toNat = 13
    · rw [if_neg h8, if_neg h9, if_neg h10, if_neg h12, if_pos h13, hunit 13 h13 (by omega)]
      simp [readUnits, escapeUnit, h]
    · rw [if_neg h8, if_neg h9, if_neg h10, if_neg h12, if_neg h13, hunit _ rfl (by omega)]
      have hzero : hexDigit '0' = some 0 := by decide
      simp [readUnits, hzero, h, hexDigit_digitChar (show c.toNat / 16 < 16 by omega),
        hexDigit_digitChar (show c.toNat % 16 < 16 by omega)]
      omega
  · rw [if_neg hcontrol, List.singleton_append, readUnits.eq_def]
    simp [h34, h92, hcontrol, h]

theorem readString_quote (s r : Str) :
    readString (s.flatMap escapeChar ++ '"' :: r) = some (s, r) := by
  have hunits : readUnits (s.flatMap escapeChar ++ '"' :: r) = some (codeUnits s, r) := by
    induction s with
    | nil =>
      rw [List.flatMap_nil, List.nil_append, readUnits.eq_def]
      rfl
    | cons c s ih =>
      rw [List.flatMap_cons, List.append_assoc, readUnits_escapeChar c ih]
      rfl
  rw [readString, hunits, Option.map_some, fromUnits_codeUnits]

/-- What may follow a value: nothing, or a token that closes or separates. -/
def Closes (r : Str) : Prop :=
  ∀ c ∈ r.head?, c = ',' ∨ c = ']' ∨ c = '\x7d'

theorem Closes.not_digit {r : Str} (h : Closes r) : digits r = [] := by
  cases r with
  | nil => rfl
  | cons c r =>
    rcases h c (by simp) with rfl | rfl | rfl <;> rfl

theorem digits_numeral (n : Nat) {r : Str} (h : Closes r) : digits (numeral n ++ r) = numeral n := by
  have hall : ∀ c ∈ numeral n, c.isDigit := fun c => isDigit_of_mem_numeral
  unfold digits
  rw [List.takeWhile_append_of_pos hall]
  have hr := h.not_digit
  unfold digits at hr
  rw [hr, List.append_nil]

theorem numeral_head (n : Nat) : ∃ c l, numeral n = c :: l ∧ c.isDigit := by
  cases h : numeral n with
  | nil => exact absurd h (Nat.toDigits_ne_nil)
  | cons c l => exact ⟨c, l, rfl, isDigit_of_mem_numeral (h ▸ List.mem_cons_self)⟩

/-- A numeral of more than one digit does not start with zero. -/
theorem numeral_head_zero {n : Nat} (h : (numeral n).head? = some '0') : n = 0 := by
  induction n using Nat.strongRecOn with
  | ind n ih =>
    unfold numeral at h ih
    rw [Nat.toDigits_eq_if (by omega)] at h
    by_cases hn : n < 10
    · rw [if_pos hn, List.head?_cons, Option.some.injEq] at h
      have hval := congrArg hexDigit h
      rw [hexDigit_digitChar (by omega)] at hval
      exact Option.some.inj hval
    · rw [if_neg hn, List.head?_append_of_ne_nil _ Nat.toDigits_ne_nil] at h
      have := ih (n / 10) (by omega) h
      omega

theorem readNumber_numeral (n : Nat) {r : Str} (h : Closes r) :
    readNumber (numeral n ++ r) = some (numeral n, r) := by
  obtain ⟨c, l, hnum, hdigit⟩ := numeral_head n
  have hminus : (numeral n ++ r).head? ≠ some '-' := by
    rw [hnum]
    rintro hc
    rw [List.cons_append, List.head?_cons, Option.some.injEq] at hc
    subst hc
    cases hdigit
  have hzero : ¬ (numeral n = [] ∨ ((numeral n).head? = some '0' ∧ (numeral n).length ≠ 1)) := by
    rintro (hnil | ⟨hhead, hlen⟩)
    · rw [hnum] at hnil
      cases hnil
    · rw [numeral_head_zero hhead] at hlen
      exact hlen rfl
  unfold readNumber
  rw [if_neg hminus]
  simp only [List.length_nil, List.drop_zero, List.nil_append, digits_numeral n h, if_neg hzero,
    List.drop_left]
  cases r with
  | nil => simp
  | cons d r => rcases h d (by simp) with rfl | rfl | rfl <;> simp

mutual

/-- Every number in a value is a natural number. -/
def Plain : Json → Prop
  | num literal => ∃ n, literal = numeral n
  | arr l => PlainElements l
  | obj l => PlainMembers l
  | _ => True

def PlainElements : List Json → Prop
  | [] => True
  | v :: l => Plain v ∧ PlainElements l

def PlainMembers : List (Str × Json) → Prop
  | [] => True
  | (_, v) :: l => Plain v ∧ PlainMembers l

end

theorem readValue_digit {fuel : Nat} {c : Char} {s : Str} (hc : c.isDigit) :
    readValue (fuel + 1) (c :: s) = (readNumber (c :: s)).map fun p => (num p.1, p.2) := by
  rw [readValue]
  -- no other branch starts with a digit
  all_goals
    intro r h
    injection h with hc' _
    subst hc'
    cases hc

/-- The text of a value starts with a character that is neither blank nor a
closing token. -/
theorem stringify_head {v : Json} (hv : Plain v) :
    ∃ c l, stringify v = c :: l ∧ isBlank c = false ∧ c ≠ ']' := by
  cases v with
  | null => exact ⟨_, _, rfl, rfl, by decide⟩
  | bool b => cases b <;> exact ⟨_, _, rfl, rfl, by decide⟩
  | num literal =>
    obtain ⟨n, rfl⟩ := hv
    obtain ⟨c, l, hnum, hdigit⟩ := numeral_head n
    refine ⟨c, l, by rw [stringify, hnum], ?_, ?_⟩
    · by_contra hblank
      simp only [isBlank, Bool.not_eq_false, Bool.or_eq_true, decide_eq_true_eq] at hblank
      rcases hblank with ((h | h) | h) | h
      all_goals
        rw [← Char.ofNat_toNat c, h] at hdigit
        cases hdigit
    · rintro rfl
      cases hdigit
  | str s => exact ⟨_, _, by rw [stringify, quote], rfl, by decide⟩
  | arr l => cases l <;> exact ⟨_, _, by rw [stringify], rfl, by decide⟩
  | obj l => rcases l with _ | ⟨⟨name, v⟩, l⟩ <;> exact ⟨_, _, by rw [stringify], rfl, by decide⟩

theorem skipBlank_stringify {v : Json} (hv : Plain v) (r : Str) :
    skipBlank (stringify v ++ r) = stringify v ++ r := by
  obtain ⟨c, l, heq, hblank, -⟩ := stringify_head hv
  rw [heq, List.cons_append, skipBlank, List.dropWhile_cons_of_neg (by simp [hblank])]

theorem skipBlank_quote (name r : Str) : skipBlank (quote name ++ r) = quote name ++ r := rfl

theorem skipBlank_cons {c : Char} (hc : isBlank c = false) (r : Str) :
    skipBlank (c :: r) = c :: r := by
  rw [skipBlank, List.dropWhile_cons_of_neg (by simp [hc])]

theorem readValue_quote {fuel : Nat} (s r : Str) :
    readValue (fuel + 1) (quote s ++ r) = some (str s, r) := by
  rw [quote, List.cons_append, List.append_assoc, List.singleton_append, readValue,
    readString_quote]
  rfl

theorem readValue_open {fuel : Nat} {l : List Json} {r s : Str} {c : Char} {t : Str}
    (hs : s = c :: t) (hblank : isBlank c = false) (hne : c ≠ ']')
    (h : readElements fuel s = some (l, r)) :
    readValue (fuel + 1) ('[' :: s) = some (arr l, r) := by
  rw [readValue, hs, skipBlank_cons hblank]
  subst hs
  split
  · rename_i heq
    injection heq with hc _
    exact absurd hc hne
  · rw [h]
    rfl

/-- Fuel for the text of a value. -/
def Enough (fuel : Nat) (text : Str) : Prop :=
  2 * text.length ≤ fuel

theorem closes_stringifyElements (l : List Json) (r : Str) :
    Closes (stringifyElements l ++ r) := by
  intro c hc
  cases l <;> simp [stringifyElements] at hc <;> simp [← hc]

theorem closes_stringifyMembers (l : List (Str × Json)) (r : Str) :
    Closes (stringifyMembers l ++ r) := by
  intro c hc
  rcases l with _ | ⟨⟨name, v⟩, l⟩ <;> simp [stringifyMembers] at hc <;> simp [← hc]

theorem length_stringifyElements_pos (l : List Json) : 0 < (stringifyElements l).length := by
  cases l <;> simp [stringifyElements]

theorem length_stringifyMembers_pos (l : List (Str × Json)) :
    0 < (stringifyMembers l).length := by
  rcases l with _ | ⟨⟨name, v⟩, l⟩ <;> simp [stringifyMembers]

mutual

theorem readValue_stringify {v : Json} (hv : Plain v) {fuel : Nat}
    (hfuel : Enough fuel (stringify v)) {r : Str} (hr : Closes r) :
    readValue fuel (stringify v ++ r) = some (v, r) := by
  obtain ⟨c, t, heq, hblank, hne⟩ := stringify_head hv
  obtain ⟨fuel, rfl⟩ : ∃ n, fuel = n + 1 := by
    rw [Enough, heq, List.length_cons] at hfuel
    exact ⟨fuel - 1, by omega⟩
  clear heq hblank hne
  match v, hv with
  | null, _ => rfl
  | bool true, _ => rfl
  | bool false, _ => rfl
  | num literal, hv =>
    obtain ⟨n, rfl⟩ := hv
    obtain ⟨d, l, hnum, hdigit⟩ := numeral_head n
    have hread := readNumber_numeral n hr
    rw [stringify]
    rw [hnum] at hread ⊢
    rw [List.cons_append, readValue_digit hdigit]
    rw [List.cons_append] at hread
    rw [hread]
    rfl
  | str s, _ => exact readValue_quote s r
  | arr [], _ => rfl
  | arr (v :: l), hv =>
    rw [Enough, stringify, List.length_cons] at hfuel
    have henough : Enough fuel (stringify v ++ stringifyElements l) := by
      rw [Enough]
      omega
    have hread := readElements_stringify hv.1 hv.2 henough r
    obtain ⟨c, t, heq, hblank, hne⟩ := stringify_head hv.1
    rw [stringify, List.cons_append, List.append_assoc]
    exact readValue_open (by rw [heq, List.cons_append]) hblank hne hread
  | obj [], _ => rfl
  | obj ((name, v) :: l), hv =>
    rw [Enough, stringify, List.length_cons] at hfuel
    have henough :
        Enough fuel (quote name ++ ':' :: (stringify v ++ stringifyMembers l)) := by
      rw [Enough]
      omega
    have hread := readMembers_stringify hv.1 hv.2 henough r
    rw [stringify, List.cons_append, List.append_assoc, List.cons_append, List.append_assoc,
      readValue, skipBlank_quote]
    exact congrArg (Option.map fun p => (obj p.1, p.2)) hread
termination_by fuel

theorem readElements_stringify {v : Json} {l : List Json} (hv : Plain v) (hl : PlainElements l)
    {fuel : Nat} (hfuel : Enough fuel (stringify v ++ stringifyElements l)) (r : Str) :
    readElements fuel (stringify v ++ (stringifyElements l ++ r)) = some (v :: l, r) := by
  have hpos := length_stringifyElements_pos l
  rw [Enough, List.length_append] at hfuel
  obtain ⟨fuel, rfl⟩ : ∃ n, fuel = n + 1 := ⟨fuel - 1, by omega⟩
  rw [readElements, readValue_stringify hv (by rw [Enough]; omega)
    (closes_stringifyElements l r)]
  match l, hl with
  | [], _ => rfl
  | w :: l, hl =>
    rw [stringifyElements, List.length_cons, List.length_append] at hfuel
    have henough : Enough fuel (stringify w ++ stringifyElements l) := by
      rw [Enough, List.length_append]
      omega
    have hread := readElements_stringify hl.1 hl.2 henough r
    rw [stringifyElements, List.cons_append, List.append_assoc]
    simp only [skipBlank_cons (show isBlank ',' = false from rfl), skipBlank_stringify hl.1, hread]
    rfl
termination_by fuel

theorem readMembers_stringify {name : Str} {v : Json} {l : List (Str × Json)} (hv : Plain v)
    (hl : PlainMembers l) {fuel : Nat}
    (hfuel : Enough fuel (quote name ++ ':' :: (stringify v ++ stringifyMembers l))) (r : Str) :
    readMembers fuel (quote name ++ ':' :: (stringify v ++ (stringifyMembers l ++ r))) =
      some ((name, v) :: l, r) := by
  have hpos := length_stringifyMembers_pos l
  rw [Enough, List.length_append, List.length_cons, List.length_append] at hfuel
  obtain ⟨fuel, rfl⟩ : ∃ n, fuel = n + 1 := ⟨fuel - 1, by omega⟩
  rw [quote, List.cons_append, List.append_assoc, List.singleton_append, readMembers]
  simp only [readString_quote, skipBlank_cons (show isBlank ':' = false from rfl),
    skipBlank_stringify hv]
  rw [readValue_stringify hv (by rw [Enough]; omega) (closes_stringifyMembers l r)]
  match l, hl with
  | [], _ => rfl
  | (name', w) :: l, hl =>
    rw [stringifyMembers, List.length_cons, List.length_append, List.length_cons,
      List.length_append] at hfuel
    have henough :
        Enough fuel (quote name' ++ ':' :: (stringify w ++ stringifyMembers l)) := by
      rw [Enough, List.length_append, List.length_cons, List.length_append]
      omega
    have hread := readMembers_stringify hl.1 hl.2 henough r
    rw [stringifyMembers, List.cons_append, List.append_assoc, List.cons_append,
      List.append_assoc]
    simp only [skipBlank_cons (show isBlank ',' = false from rfl), skipBlank_quote, hread]
    rfl
termination_by fuel

end

/-- Reading a printed value gives the value back. -/
theorem parse_stringify {v : Json} (hv : Plain v) : parse (stringify v) = some v := by
  have henough : Enough (2 * (stringify v).length + 2) (stringify v) := by
    rw [Enough]
    omega
  have hread := readValue_stringify hv henough (r := []) (by simp [Closes])
  have hblank := skipBlank_stringify hv []
  rw [List.append_nil] at hread hblank
  rw [parse, hblank, hread]
  rfl

end Json

end HomelabMcp
