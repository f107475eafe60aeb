import HomelabMcp.History.SweepPlanner

/-!
# The checksums of the candidates (sha256sum, sweepPlanner.ts)

`sha256sum` prints a line for each file it can read. A name with a backslash, a line feed
or a carriage return is escaped, and its line starts with a backslash; the parser takes no
such line, and none whose name has a line terminator.

- `parseSumLine_sumLine`, `parseSumLine_escaped`: which lines are read back.
- `parseSha256Sum_sums`: the digests of the plain names, and no others.
-/

namespace HomelabMcp.History

open SlashPath Text Integrity KeyedList

variable {sha256 : Bytes → Bytes}

/-- The characters that `sha256sum` escapes. -/
def isEscaped (c : Char) : Bool :=
  c = '\\' || c = newline || c = carriageReturn

def escapeName (name : Str) : Str :=
  name.flatMap fun c =>
    if c = '\\' then ['\\', '\\']
    else if c = newline then ['\\', 'n']
    else if c = carriageReturn then ['\\', 'r']
    else [c]

/-- What `sha256sum` prints of a file. -/
def sumLine (sha256 : Bytes → Bytes) (f : Str × Bytes) : Str :=
  if f.1.any isEscaped then
    '\\' :: (hashHex (sha256 f.2) ++ ' ' :: ' ' :: (escapeName f.1 ++ [newline]))
  else hashHex (sha256 f.2) ++ ' ' :: ' ' :: (f.1 ++ [newline])

/-- A name that the parser reads back. -/
def PlainName (name : Str) : Prop :=
  name ≠ [] ∧ '\\' ∉ name ∧ ∀ c ∈ name, isLineTerminator c = false

instance : DecidablePred PlainName := fun name =>
  inferInstanceAs (Decidable (name ≠ [] ∧ '\\' ∉ name ∧ ∀ c ∈ name, _))

theorem PlainName.newline_notMem {name : Str} (h : PlainName name) : newline ∉ name := fun hmem =>
  absurd (h.2.2 newline hmem) (by decide)

theorem PlainName.return_notMem {name : Str} (h : PlainName name) : carriageReturn ∉ name :=
  fun hmem => absurd (h.2.2 carriageReturn hmem) (by decide)

theorem PlainName.not_escaped {name : Str} (h : PlainName name) : name.any isEscaped = false := by
  rw [List.any_eq_false]
  intro c hc
  unfold isEscaped
  rw [Bool.or_eq_true, Bool.or_eq_true, decide_eq_true_iff, decide_eq_true_iff,
    decide_eq_true_iff]
  rintro ((rfl | rfl) | rfl)
  · exact h.2.1 hc
  · exact h.newline_notMem hc
  · exact h.return_notMem hc

/-! ## Digests in hexadecimal -/

theorem digitChar_plain : ∀ n < 16, (hexValue (Nat.digitChar n)).isSome ∧
    (Nat.digitChar n).toLower = Nat.digitChar n ∧ isSpace (Nat.digitChar n) = false ∧
      Nat.digitChar n ≠ newline := by
  decide

theorem hashHex_digits (b : Bytes) : (hashHex b).all fun c => (hexValue c).isSome := by
  rw [List.all_eq_true]
  intro c hc
  obtain ⟨n, hn, rfl⟩ := mem_hashHex hc
  exact (digitChar_plain n hn).1

theorem toLowerCase_hashHex (b : Bytes) : toLowerCase (hashHex b) = hashHex b := by
  have hsame : (hashHex b).map Char.toLower = (hashHex b).map id := by
    refine List.map_congr_left fun c hc => ?_
    obtain ⟨n, hn, rfl⟩ := mem_hashHex hc
    exact (digitChar_plain n hn).2.1
  exact hsame.trans (List.map_id _)

theorem newline_notMem_hashHex (b : Bytes) : newline ∉ hashHex b := by
  intro h
  obtain ⟨n, hn, heq⟩ := mem_hashHex h
  exact (digitChar_plain n hn).2.2.2 heq.symm

/-! ## The parser -/

/-- What `(.+)$` takes whole. -/
def nameFits (s : Str) : Bool :=
  s ≠ [] && s.all fun c => !isLineTerminator c

theorem sumName_blanks (name : Str) :
    sumName (' ' :: ' ' :: name) =
      if nameFits name then some name
      else if nameFits (' ' :: name) then some (' ' :: name) else none := rfl

/-- After the digest come two blanks and the name. -/
theorem sumName_plain {name : Str} (h : PlainName name) :
    sumName (' ' :: ' ' :: name) = some name := by
  rw [sumName_blanks]
  refine if_pos ?_
  unfold nameFits
  rw [Bool.and_eq_true, decide_eq_true_iff, List.all_eq_true]
  refine ⟨h.1, fun c hc => ?_⟩
  rw [h.2.2 c hc]
  rfl

/-- A name with a line terminator is not read. -/
theorem sumName_terminator {name : Str} (h : ∃ c ∈ name, isLineTerminator c = true) :
    sumName (' ' :: ' ' :: name) = none := by
  obtain ⟨c, hc, hline⟩ := h
  have hfits {s : Str} (hmem : c ∈ s) : ¬nameFits s = true := by
    unfold nameFits
    rw [Bool.and_eq_true, List.all_eq_true, not_and]
    intro _ hall
    have hplain := hall c hmem
    rw [hline] at hplain
    cases hplain
  rw [sumName_blanks, if_neg (hfits hc), if_neg (hfits (List.mem_cons_of_mem ' ' hc))]

section
variable (hlen : ∀ b, (sha256 b).length = 32)
include hlen

theorem parseSumLine_hex {b : Bytes} {rest : Str} (hlast : rest.getLast? ≠ some carriageReturn)
    (hne : rest ≠ []) :
    parseSumLine (hashHex (sha256 b) ++ rest) =
      (sumName rest).map fun name => (name, hashHex (sha256 b)) := by
  have hhex : (hashHex (sha256 b)).length = 64 := by rw [length_hashHex, hlen]
  have hkeep : ¬(hashHex (sha256 b) ++ rest).getLast? = some carriageReturn := by
    rw [List.getLast?_append_of_ne_nil _ hne]
    exact hlast
  unfold parseSumLine
  dsimp only
  rw [if_neg hkeep, List.take_left' hhex, List.drop_left' hhex,
    if_pos ⟨hhex, hashHex_digits _⟩, toLowerCase_hashHex]

theorem parseSumLine_plain {name : Str} {b : Bytes} (h : PlainName name) :
    parseSumLine (hashHex (sha256 b) ++ ' ' :: ' ' :: name) =
      some (name, hashHex (sha256 b)) := by
  obtain ⟨c, l, rfl⟩ := List.exists_cons_of_ne_nil h.1
  rw [parseSumLine_hex hlen ?_ (List.cons_ne_nil _ _), sumName_plain h, Option.map_some]
  rw [List.getLast?_cons_cons, List.getLast?_cons_cons]
  exact fun hlast => h.return_notMem (List.mem_of_getLast? hlast)

end

/-- A line that starts with a backslash is not read. -/
theorem parseSumLine_escaped (rest : Str) : parseSumLine ('\\' :: rest) = none := by
  have hstart : ∀ line : Str, line.head? = some '\\' →
      ¬((line.take 64).length = 64 ∧ (line.take 64).all fun c => (hexValue c).isSome) := by
    rintro line hhead ⟨-, hall⟩
    obtain ⟨l, rfl⟩ := List.head?_eq_some_iff.mp hhead
    have hdigit := List.all_eq_true.mp hall '\\' List.mem_cons_self
    exact absurd hdigit (by decide)
  unfold parseSumLine
  dsimp only
  refine if_neg (hstart _ ?_)
  split
  · next hlast =>
    cases rest with
    | nil => cases hlast
    | cons c rest => rfl
  · rfl

/-! ## The whole output -/

/-- A line of the output, without the line feed. -/
def sumBody (sha256 : Bytes → Bytes) (f : Str × Bytes) : Str :=
  if f.1.any isEscaped then '\\' :: (hashHex (sha256 f.2) ++ ' ' :: ' ' :: escapeName f.1)
  else hashHex (sha256 f.2) ++ ' ' :: ' ' :: f.1

theorem sumLine_eq (f : Str × Bytes) : sumLine sha256 f = sumBody sha256 f ++ [newline] := by
  unfold sumLine sumBody
  split
  · rw [List.cons_append, List.append_assoc, List.cons_append, List.cons_append]
  · rw [List.append_assoc, List.cons_append, List.cons_append]

theorem not_escaped_iff {name : Str} :
    name.any isEscaped = false ↔
      '\\' ∉ name ∧ newline ∉ name ∧ carriageReturn ∉ name := by
  rw [List.any_eq_false]
  unfold isEscaped
  constructor
  · intro h
    have hnone : ∀ c, isEscaped c = true → c ∉ name := fun c hc hmem => h c hmem hc
    exact ⟨hnone _ (by decide), hnone _ (by decide), hnone _ (by decide)⟩
  · rintro ⟨hslash, hline, hreturn⟩ c hc
    rw [Bool.or_eq_true, Bool.or_eq_true, decide_eq_true_iff, decide_eq_true_iff,
      decide_eq_true_iff]
    rintro ((rfl | rfl) | rfl)
    · exact hslash hc
    · exact hline hc
    · exact hreturn hc

theorem newline_notMem_escapeName (name : Str) : newline ∉ escapeName name := by
  intro h
  obtain ⟨c, -, hc⟩ := List.mem_flatMap.mp h
  split at hc
  · exact absurd hc (by decide)
  split at hc
  · exact absurd hc (by decide)
  split at hc
  · exact absurd hc (by decide)
  next hline _ => exact hline (List.mem_singleton.mp hc).symm

theorem newline_notMem_sumBody (f : Str × Bytes) : newline ∉ sumBody sha256 f := by
  have hblanks {s : Str} (hs : newline ∉ s) :
      newline ∉ hashHex (sha256 f.2) ++ ' ' :: ' ' :: s := by
    rw [List.mem_append, List.mem_cons, List.mem_cons]
    rintro (h | h | h | h)
    · exact newline_notMem_hashHex _ h
    · exact absurd h (by decide)
    · exact absurd h (by decide)
    · exact hs h
  unfold sumBody
  split
  · rw [List.mem_cons, not_or]
    exact ⟨by decide, hblanks (newline_notMem_escapeName f.1)⟩
  · next h => exact hblanks (not_escaped_iff.mp (Bool.not_eq_true _ ▸ h)).2.1

/-- What the parser makes of a line. -/
theorem parseSumLine_body (hlen : ∀ b, (sha256 b).length = 32) {f : Str × Bytes}
    (hne : f.1 ≠ []) :
    parseSumLine (sumBody sha256 f) =
      if PlainName f.1 then some (f.1, hashHex (sha256 f.2)) else none := by
  unfold sumBody
  by_cases hescaped : f.1.any isEscaped = true
  · rw [if_pos hescaped, if_neg, parseSumLine_escaped]
    intro hplain
    rw [hplain.not_escaped] at hescaped
    cases hescaped
  · rw [if_neg hescaped]
    split
    · next hplain => exact parseSumLine_plain hlen hplain
    · next hodd =>
      obtain ⟨hslash, -, hreturn⟩ := not_escaped_iff.mp (Bool.not_eq_true _ ▸ hescaped)
      have hline : ∃ c ∈ f.1, isLineTerminator c = true := by
        by_contra hnone
        refine hodd ⟨hne, hslash, fun c hc => ?_⟩
        by_contra hc'
        exact hnone ⟨c, hc, Bool.not_eq_false _ ▸ hc'⟩
      obtain ⟨c, l, hcl⟩ := List.exists_cons_of_ne_nil hne
      rw [parseSumLine_hex hlen ?_ (List.cons_ne_nil _ _), sumName_terminator hline,
        Option.map_none]
      rw [hcl, List.getLast?_cons_cons, List.getLast?_cons_cons, ← hcl]
      exact fun hlast => hreturn (List.mem_of_getLast? hlast)

/-- The parser reads the digests of the plain names, and no others. -/
theorem parseSha256Sum_sums (hlen : ∀ b, (sha256 b).length = 32) {files : List (Str × Bytes)}
    (hne : ∀ f ∈ files, f.1 ≠ []) :
    parseSha256Sum (files.flatMap (sumLine sha256)) =
      upsertAll Prod.fst ((files.filter fun f => decide (PlainName f.1)).map fun f =>
        (f.1, hashHex (sha256 f.2))) [] := by
  have hparsed : (lines (files.flatMap (sumLine sha256))).filterMap parseSumLine =
      (files.filter fun f => decide (PlainName f.1)).map fun f =>
        (f.1, hashHex (sha256 f.2)) := by
    induction files with
    | nil => rfl
    | cons f files ih =>
      have hrest := ih fun g hg => hne g (List.mem_cons_of_mem f hg)
      rw [List.flatMap_cons, sumLine_eq, List.append_assoc, List.singleton_append, lines_append,
        lines_of_notMem (newline_notMem_sumBody f), List.singleton_append]
      have hbody := parseSumLine_body hlen (hne f List.mem_cons_self)
      by_cases hplain : PlainName f.1
      · rw [if_pos hplain] at hbody
        rw [List.filterMap_cons_some hbody, hrest,
          List.filter_cons, if_pos (decide_eq_true hplain), List.map_cons]
      · rw [if_neg hplain] at hbody
        rw [List.filterMap_cons_none hbody, hrest,
          List.filter_cons, if_neg (decide_eq_true_iff.not.mpr hplain)]
  unfold parseSha256Sum
  rw [hparsed]

/-- A digest of the right width that can be read. -/
def firstBytes (b : Bytes) : Bytes :=
  (b ++ List.replicate 32 0).take 32

theorem length_firstBytes (b : Bytes) : (firstBytes b).length = 32 := by
  unfold firstBytes
  rw [List.length_take, List.length_append, List.length_replicate]
  omega

/-- Of a plain name and an escaped one, the plain one is read back. -/
theorem parseSha256Sum_sums_escaped :
    parseSha256Sum ([("/etc/motd".toList, [1]), ("/etc/a\\b".toList, [2])].flatMap
        (sumLine firstBytes)) =
      upsertAll Prod.fst
        (([("/etc/motd".toList, [1]), ("/etc/a\\b".toList, [2])].filter
          fun f => decide (PlainName f.1)).map fun f => (f.1, hashHex (firstBytes f.2))) [] :=
  parseSha256Sum_sums length_firstBytes (by simp)

end HomelabMcp.History
