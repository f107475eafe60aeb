import Mathlib.Data.List.TakeWhile
import HomelabMcp.Lib.Text

/-!
# How a shell reads a command line

Token recognition of the POSIX shell command language: blanks separate words,
operator characters stand alone, quotes are removed, a comment runs to the end of
its line. Operator characters are given one by one (which of them make one
operator is for the grammar), and of a word in which an expansion begins only the
beginning is read: where the expansion ends, the grammar says.

- `tokenize_word`: a word of ordinary characters at the head of a line.
- `tokenize_joinWords_quoted`: quoted strings, one blank between each two, are read
  back as they are.
- `scan_eq_word_iff`: the rest of a line is the rest of one word, unchanged,
  exactly when every character of it is ordinary.
-/

namespace HomelabMcp.Shell

open Text

inductive Token
  /-- A word, its quotes removed. -/
  | word (text : Str)
  | operator (c : Char)
  /-- A word in which an expansion begins, from its first character on. -/
  | expansion (rest : Str)
  /-- A quotation that the line does not close. -/
  | unterminated
  deriving DecidableEq

/-- What the next character is read as. -/
inductive Mode
  | bare
  /-- After a backslash outside quotes. -/
  | escaped
  | single
  | double
  /-- After a backslash inside double quotes. -/
  | doubleEscaped
  | comment
  deriving DecidableEq

def singleQuote : Char := Char.ofNat 39

def doubleQuote : Char := Char.ofNat 34

def backslash : Char := Char.ofNat 92

def backquote : Char := Char.ofNat 96

def nul : Char := Char.ofNat 0

def isBlank (c : Char) : Bool :=
  c == ' ' || c == tab

def isOperator (c : Char) : Bool :=
  c == newline || c == '&' || c == '|' || c == ';' || c == '<' || c == '>' || c == '(' || c == ')'

/-- What makes a dollar sign the start of an expansion; before anything else it
stands for itself. -/
def startsExpansion : Str → Bool
  | [] => false
  | c :: _ => c.isAlphanum || c == '_' || c == '{' || c == '(' || c == '@' || c == '*' ||
      c == '#' || c == '?' || c == '-' || c == '$' || c == '!'

/-- The tokens of a line: end the current word, if there is one. -/
def flush (word : Option Str) (tokens : List Token) : List Token :=
  match word with
  | none => tokens
  | some w => .word w :: tokens

/-- The current word with one more character. -/
def push (word : Option Str) (c : Char) : Option Str :=
  some (word.getD [] ++ [c])

def scan : Mode → Option Str → Str → List Token
  | .bare, word, [] => flush word []
  | .bare, word, c :: s =>
    if c == backslash then scan .escaped word s
    -- A quote begins a word even when nothing stands between the quotes.
    else if c == singleQuote then scan .single (some (word.getD [])) s
    else if c == doubleQuote then scan .double (some (word.getD [])) s
    else if c == backquote || (c == '$' && startsExpansion s) then
      [.expansion (word.getD [] ++ c :: s)]
    else if isBlank c then flush word (scan .bare none s)
    else if isOperator c then flush word (.operator c :: scan .bare none s)
    else if c == '#' && word.isNone then scan .comment none s
    else scan .bare (push word c) s
  | .escaped, word, [] => flush (push word backslash) []
  | .escaped, word, c :: s =>
    -- An escaped newline continues the line.
    if c == newline then scan .bare word s else scan .bare (push word c) s
  | .single, _, [] => [.unterminated]
  | .single, word, c :: s =>
    if c == singleQuote then scan .bare word s else scan .single (push word c) s
  | .double, _, [] => [.unterminated]
  | .double, word, c :: s =>
    if c == doubleQuote then scan .bare word s
    else if c == backslash then scan .doubleEscaped word s
    else if c == backquote || (c == '$' && startsExpansion s) then
      [.expansion (word.getD [] ++ c :: s)]
    else scan .double (push word c) s
  | .doubleEscaped, _, [] => [.unterminated]
  | .doubleEscaped, word, c :: s =>
    if c == newline then scan .double word s
    else if c == '$' || c == backquote || c == doubleQuote || c == backslash then
      scan .double (push word c) s
    else scan .double (push (push word backslash) c) s
  | .comment, _, [] => []
  | .comment, word, c :: s =>
    if c == newline then .operator c :: scan .bare none s else scan .comment word s

/-- The tokens of a command line, which ends at its first NUL. -/
def tokenize (line : Str) : List Token :=
  scan .bare none (line.takeWhile fun c => c != nul)

example : tokenize "cp -- 'a b'\\ c \"$x\" # y".toList =
    [.word "cp".toList, .word "--".toList, .word "a b c".toList, .expansion "$x\" # y".toList] := by
  decide +kernel

/-! ## Ordinary characters -/

/-- A character that stands for itself wherever it is in a word, `$` and a `#`
inside a word apart. -/
def isOrdinary (c : Char) : Bool :=
  !(c == nul || c == backslash || c == singleQuote || c == doubleQuote || c == backquote ||
    isBlank c || isOperator c)

/-- Inside a word and before `s`, the character stands for itself: a dollar sign
that starts no expansion, and a backslash that has nothing to quote, do as well. -/
def standsForItself (c : Char) (s : Str) : Bool :=
  (isOrdinary c && !(c == '$' && startsExpansion s)) || (c == backslash && s.isEmpty)

/-- Every character stands for itself. -/
def isPlain : Str → Bool
  | [] => true
  | c :: s => standsForItself c s && isPlain s

theorem isOrdinary_iff {c : Char} : isOrdinary c = true ↔
    c ≠ nul ∧ c ≠ backslash ∧ c ≠ singleQuote ∧ c ≠ doubleQuote ∧ c ≠ backquote ∧
      isBlank c = false ∧ isOperator c = false := by
  unfold isOrdinary
  simp only [Bool.not_eq_true', Bool.or_eq_false_iff, beq_eq_false_iff_ne, ne_eq]
  tauto

theorem isOrdinary_of_isDigit {c : Char} (h : c.isDigit = true) : isOrdinary c = true := by
  cases hc : isOrdinary c with
  | true => rfl
  | false =>
    simp only [isOrdinary, isBlank, isOperator, Bool.not_eq_false', Bool.or_eq_true,
      beq_iff_eq] at hc
    rcases hc with (((((rfl | rfl) | rfl) | rfl) | rfl) | rfl | rfl) |
      ((((((rfl | rfl) | rfl) | rfl) | rfl) | rfl) | rfl) | rfl
    all_goals exact absurd h (by decide)

theorem not_isPlain_of_nul_mem {s : Str} (h : nul ∈ s) : ¬isPlain s = true := by
  induction s with
  | nil => cases h
  | cons c s ih =>
    unfold isPlain
    rw [Bool.and_eq_true]
    rintro ⟨hc, hs⟩
    rcases List.mem_cons.mp h with rfl | h
    · have hself : standsForItself nul s = false := rfl
      rw [hself] at hc
      cases hc
    · exact ih h hs

/-- An ordinary character is read into the current word. -/
theorem scan_ordinary {c : Char} {w s : Str} (hc : isOrdinary c = true)
    (hdollar : (c == '$' && startsExpansion s) = false) :
    scan .bare (some w) (c :: s) = scan .bare (some (w ++ [c])) s := by
  obtain ⟨-, hbackslash, hsingle, hdouble, hback, hblank, hop⟩ := isOrdinary_iff.mp hc
  simp [scan, hbackslash, hsingle, hdouble, hback, hdollar, hblank, hop, push]

theorem scan_plain {w s : Str} (hs : isPlain s = true) :
    scan .bare (some w) s = [.word (w ++ s)] := by
  induction s generalizing w with
  | nil => simp [scan, flush]
  | cons c s ih =>
    unfold isPlain standsForItself at hs
    simp only [Bool.and_eq_true, Bool.or_eq_true, Bool.not_eq_true', beq_iff_eq,
      List.isEmpty_iff] at hs
    rcases hs with ⟨⟨hc, hdollar⟩ | ⟨rfl, rfl⟩, hs⟩
    · rw [scan_ordinary hc hdollar, ih hs, List.append_assoc, List.singleton_append]
    · simp [scan, flush, push]

/-! ## Nothing is added to a word -/

/-- How many characters the words of a line have. -/
def wordLength : List Token → Nat
  | [] => 0
  | .word w :: tokens => w.length + wordLength tokens
  | _ :: tokens => wordLength tokens

theorem wordLength_flush (word : Option Str) (tokens : List Token) :
    wordLength (flush word tokens) = (word.getD []).length + wordLength tokens := by
  cases word with
  | none => simp [flush]
  | some w => rfl

theorem length_push (word : Option Str) (c : Char) :
    ((push word c).getD []).length = (word.getD []).length + 1 := by
  simp [push]

/-- A backslash that has been read but not yet interpreted. -/
def Mode.pending : Mode → Nat
  | .escaped | .doubleEscaped => 1
  | _ => 0

/-- The words of a line are no longer than what they were read from. -/
theorem wordLength_scan_le (m : Mode) (word : Option Str) (s : Str) :
    wordLength (scan m word s) ≤ (word.getD []).length + m.pending + s.length := by
  induction s generalizing m word with
  | nil =>
    cases m with
    | bare | escaped => simp [scan, wordLength_flush, length_push, wordLength, Mode.pending]
    | single | double | doubleEscaped | comment => simp [scan, wordLength]
  | cons c s ih =>
    have hbare := ih .bare
    have hnone : wordLength (scan .bare none s) ≤ s.length := by
      simpa [Mode.pending] using ih .bare none
    have hsame := ih m word
    have hpush := ih m (push word c)
    rw [length_push] at hpush
    rw [List.length_cons]
    cases m with
    | bare =>
      have hescaped := ih .escaped word
      have hsingle := ih .single (some (word.getD []))
      have hdouble := ih .double (some (word.getD []))
      have hcomment := ih .comment none
      simp only [Mode.pending, Option.getD_some, Option.getD_none, List.length_nil] at *
      unfold scan
      repeat' split
      all_goals first | omega | (simp only [wordLength_flush, wordLength]; omega)
    | escaped =>
      have hpushed := hbare (push word c)
      have hkept := hbare word
      rw [length_push] at hpushed
      simp only [Mode.pending] at *
      unfold scan
      split
      all_goals omega
    | single =>
      have hkept := hbare word
      simp only [Mode.pending] at *
      unfold scan
      split
      all_goals omega
    | double =>
      have hkept := hbare word
      have hescaped := ih .doubleEscaped word
      simp only [Mode.pending] at *
      unfold scan
      repeat' split
      all_goals first | omega | (simp only [wordLength]; omega)
    | doubleEscaped =>
      have hkept := ih .double word
      have hone := ih .double (push word c)
      have htwo := ih .double (push (push word backslash) c)
      rw [length_push] at hone
      rw [length_push, length_push] at htwo
      simp only [Mode.pending] at *
      unfold scan
      repeat' split
      all_goals omega
    | comment =>
      have hkept := hbare none
      simp only [Mode.pending] at *
      unfold scan
      split
      · simp only [wordLength]; omega
      · omega

/-- A character with a meaning of its own is not read as it stands. -/
theorem scan_special_ne {c : Char} {w s : Str} (hnul : c ≠ nul)
    (hc : standsForItself c s = false) :
    scan .bare (some w) (c :: s) ≠ [.word (w ++ c :: s)] := by
  intro heq
  -- The word would be longer than what is left to read it from.
  have hlen : wordLength (scan .bare (some w) (c :: s)) = w.length + s.length + 1 := by
    rw [heq]
    simp only [wordLength, List.length_append, List.length_cons]
    omega
  have hsingle := wordLength_scan_le .single (some w) s
  have hdouble := wordLength_scan_le .double (some w) s
  simp only [Mode.pending, Option.getD_some] at hsingle hdouble
  unfold standsForItself at hc
  simp only [Bool.or_eq_false_iff, Bool.and_eq_false_imp, beq_iff_eq] at hc
  unfold scan at heq hlen
  split at heq
  · next h =>
    rw [if_pos h] at hlen
    have hbackslash : c = backslash := by simpa using h
    have hs := hc.2 hbackslash
    cases s with
    | nil => cases hs
    | cons d s =>
      have hkept := wordLength_scan_le .bare (some w) s
      have hpushed := wordLength_scan_le .bare (push (some w) d) s
      rw [length_push] at hpushed
      simp only [Mode.pending, Option.getD_some] at hkept hpushed
      unfold scan at hlen
      rw [List.length_cons] at hlen
      split at hlen
      all_goals omega
  · next h₁ =>
    rw [if_neg h₁] at hlen
    split at heq
    · next h₂ =>
      rw [if_pos h₂] at hlen
      simp only [Option.getD_some] at hlen
      omega
    · next h₂ =>
      rw [if_neg h₂] at hlen
      split at heq
      · next h₃ =>
        rw [if_pos h₃] at hlen
        simp only [Option.getD_some] at hlen
        omega
      · next h₃ =>
        split at heq
        · cases heq
        · next h₄ =>
          split at heq
          -- A separator ends the word before itself.
          · simp [flush] at heq
          · next h₅ =>
            split at heq
            · simp [flush] at heq
            · next h₆ =>
              have hord : isOrdinary c = true := isOrdinary_iff.mpr
                ⟨hnul, by simpa using h₁, by simpa using h₂, by simpa using h₃, by
                  simp only [Bool.or_eq_true, not_or, beq_iff_eq] at h₄
                  exact h₄.1, by simpa using h₅, by simpa using h₆⟩
              have hdollar := hc.1 hord
              simp only [Bool.not_eq_false'] at hdollar
              rw [hdollar, Bool.or_true] at h₄
              exact h₄ rfl

/-- What follows belongs to the word, unchanged, exactly when every character of
it stands for itself. -/
theorem scan_eq_word_iff {w s : Str} (hnul : nul ∉ s) :
    scan .bare (some w) s = [.word (w ++ s)] ↔ isPlain s = true := by
  refine ⟨fun h => ?_, scan_plain⟩
  induction s generalizing w with
  | nil => rfl
  | cons c s ih =>
    rw [List.mem_cons, not_or] at hnul
    by_cases hc : standsForItself c s = true
    · unfold isPlain
      rw [hc, Bool.true_and]
      unfold standsForItself at hc
      simp only [Bool.and_eq_true, Bool.or_eq_true, Bool.not_eq_true', beq_iff_eq,
        List.isEmpty_iff] at hc
      rcases hc with ⟨hord, hdollar⟩ | ⟨-, rfl⟩
      · rw [scan_ordinary hord hdollar] at h
        exact ih hnul.2 (by rw [h, List.append_assoc, List.singleton_append])
      · rfl
    · exact absurd h (scan_special_ne (Ne.symm hnul.1) (by simpa using hc))

/-! ## Lines of words -/

/-- A word that nothing but blanks ends: ordinary characters, the first no `#`, and
no dollar sign. -/
structure IsWord (w : Str) : Prop where
  nonempty : w ≠ []
  ordinary : ∀ c ∈ w, isOrdinary c = true
  noDollar : '$' ∉ w
  noComment : '#' ∉ w

theorem scan_ordinary_append {w v s : Str} (hv : ∀ c ∈ v, isOrdinary c = true)
    (hdollar : '$' ∉ v) :
    scan .bare (some w) (v ++ s) = scan .bare (some (w ++ v)) s := by
  induction v generalizing w with
  | nil => rw [List.nil_append, List.append_nil]
  | cons c v ih =>
    rw [List.forall_mem_cons] at hv
    rw [List.mem_cons, not_or] at hdollar
    have hc : (c == '$') = false := by simpa using Ne.symm hdollar.1
    rw [List.cons_append, scan_ordinary hv.1 (by rw [hc, Bool.false_and]), ih hv.2 hdollar.2,
      List.append_assoc, List.singleton_append]

/-- Outside a word an ordinary character begins one. -/
theorem scan_start {c : Char} {s : Str} (hc : isOrdinary c = true) (hdollar : c ≠ '$')
    (hcomment : c ≠ '#') : scan .bare none (c :: s) = scan .bare (some [c]) s := by
  obtain ⟨-, hbackslash, hsingle, hdouble, hback, hblank, hop⟩ := isOrdinary_iff.mp hc
  simp [scan, hbackslash, hsingle, hdouble, hback, hdollar, hblank, hop, hcomment, push]

/-- A word at the head of a line, and the rest of the line after a blank. -/
theorem scan_word_blank {w s : Str} (hw : IsWord w) :
    scan .bare none (w ++ ' ' :: s) = .word w :: scan .bare none s := by
  obtain ⟨hne, hord, hdollar, hcomment⟩ := hw
  cases w with
  | nil => exact absurd rfl hne
  | cons c w =>
    rw [List.forall_mem_cons] at hord
    rw [List.mem_cons, not_or] at hdollar hcomment
    rw [List.cons_append, scan_start hord.1 (Ne.symm hdollar.1) (Ne.symm hcomment.1),
      scan_ordinary_append hord.2 hdollar.2]
    rfl

theorem IsWord.nul_notMem {w : Str} (hw : IsWord w) : nul ∉ w := fun h =>
  absurd (hw.ordinary nul h) (by decide)

/-- Words, each with a blank after it. -/
def spaced (ws : List Str) : Str :=
  ws.flatMap fun w => w ++ [' ']

theorem scan_spaced {ws : List Str} (hws : ∀ w ∈ ws, IsWord w) (s : Str) :
    scan .bare none (spaced ws ++ s) = ws.map .word ++ scan .bare none s := by
  induction ws with
  | nil => rfl
  | cons w ws ih =>
    rw [List.forall_mem_cons] at hws
    show scan .bare none (((w ++ [' ']) ++ spaced ws) ++ s) = _
    rw [List.append_assoc, List.append_assoc, List.singleton_append, scan_word_blank hws.1,
      ih hws.2]
    rfl

theorem nul_notMem_spaced {ws : List Str} (hws : ∀ w ∈ ws, IsWord w) : nul ∉ spaced ws := by
  intro h
  obtain ⟨w, hw, h⟩ := List.mem_flatMap.mp h
  rcases List.mem_append.mp h with h | h
  · exact (hws w hw).nul_notMem h
  · exact absurd (List.mem_singleton.mp h) (by decide)

/-- What follows some words is one more word, as it stands, exactly when every
character of it stands for itself. -/
theorem tokenize_spaced_iff {ws : List Str} (hws : ∀ w ∈ ws, IsWord w) {c : Char} {s : Str}
    (hc : isOrdinary c = true) (hdollar : c ≠ '$') (hcomment : c ≠ '#') :
    tokenize (spaced ws ++ c :: s) = ws.map .word ++ [.word (c :: s)] ↔
      isPlain (c :: s) = true := by
  have hplain : isPlain (c :: s) = isPlain s := by
    have hne : (c == '$') = false := by simpa using hdollar
    simp [isPlain, standsForItself, hc, hne]
  have hcut : (spaced ws ++ c :: s).takeWhile (fun d => d != nul) =
      spaced ws ++ (c :: s).takeWhile fun d => d != nul := by
    apply List.takeWhile_append_of_pos
    intro d hd
    simpa using fun h : d = nul => nul_notMem_spaced hws (h ▸ hd)
  have hcne : c ≠ nul := (isOrdinary_iff.mp hc).1
  unfold tokenize
  rw [hcut, scan_spaced hws, List.append_cancel_left_eq,
    List.takeWhile_cons_of_pos (by simpa using hcne), scan_start hc hdollar hcomment, hplain]
  by_cases hnul : nul ∈ s
  · -- The line is cut inside the last word.
    refine iff_of_false (fun heq => ?_) (fun h => ?_)
    · have hlen := wordLength_scan_le .bare (some [c]) (s.takeWhile fun d => d != nul)
      rw [heq] at hlen
      have hshort : (s.takeWhile fun d => d != nul).length < s.length := by
        refine lt_of_le_of_ne (List.takeWhile_prefix _).length_le fun hall => ?_
        have hself := (List.takeWhile_prefix (p := fun d => d != nul)).eq_of_length hall
        rw [← hself] at hnul
        simpa using List.mem_takeWhile_imp hnul
      simp only [wordLength, Mode.pending, Option.getD_some, List.length_cons,
        List.length_nil] at hlen
      omega
    · exact not_isPlain_of_nul_mem hnul h
  · rw [List.takeWhile_eq_self_iff.mpr fun d hd => by
      simpa using fun h : d = nul => hnul (h ▸ hd)]
    exact scan_eq_word_iff hnul

theorem isWord_numeral (n : Nat) : IsWord (numeral n) where
  nonempty := Nat.toDigits_ne_nil
  ordinary := fun _ hc => isOrdinary_of_isDigit (isDigit_of_mem_numeral hc)
  noDollar := fun h => absurd (isDigit_of_mem_numeral h) (by decide)
  noComment := fun h => absurd (isDigit_of_mem_numeral h) (by decide)

/-! ## Quoting -/

/-- Every single quote closed, escaped and opened again. -/
def escapeQuotes (s : Str) : Str :=
  s.flatMap fun c =>
    if c = singleQuote then [singleQuote, backslash, singleQuote, singleQuote] else [c]

/-- A string between single quotes. -/
def quoted (s : Str) : Str :=
  singleQuote :: escapeQuotes s ++ [singleQuote]

/-- `words.join(" ")`. -/
def joinWords (ws : List Str) : Str :=
  [' '].intercalate ws

theorem joinWords_cons_cons (v w : Str) (ws : List Str) :
    joinWords (v :: w :: ws) = v ++ ' ' :: joinWords (w :: ws) := by
  rw [joinWords, List.intercalate_cons_cons, List.append_assoc]
  rfl

theorem scan_single_of_ne {c : Char} (hc : c ≠ singleQuote) (w s : Str) :
    scan .single (some w) (c :: s) = scan .single (some (w ++ [c])) s := by
  have hne : (c == singleQuote) = false := beq_eq_false_iff_ne.mpr hc
  rw [scan, hne]
  rfl

/-- What is quoted goes to the current word as it stands, newlines included. -/
theorem scan_escapeQuotes (w s rest : Str) :
    scan .single (some w) (escapeQuotes s ++ singleQuote :: rest) =
      scan .bare (some (w ++ s)) rest := by
  induction s generalizing w with
  | nil =>
    rw [List.append_nil]
    rfl
  | cons c s ih =>
    rw [escapeQuotes, List.flatMap_cons, List.append_assoc, List.append_cons w]
    by_cases hc : c = singleQuote
    · -- out of the quotes for one escaped quote, and back in
      subst hc
      rw [if_pos rfl]
      exact ih (w ++ [singleQuote])
    · rw [if_neg hc, List.singleton_append, scan_single_of_ne hc]
      exact ih (w ++ [c])

theorem scan_quoted (s rest : Str) :
    scan .bare none (quoted s ++ rest) = scan .bare (some s) rest := by
  have h := scan_escapeQuotes [] s rest
  rw [List.nil_append] at h
  rw [← h, quoted, List.append_assoc, List.singleton_append]
  rfl

theorem scan_blank (w s : Str) : scan .bare (some w) (' ' :: s) = .word w :: scan .bare none s :=
  rfl

/-- Quoted words and what follows them after a blank. -/
theorem scan_joinWords_quoted (args : List Str) (rest : Str) :
    scan .bare none (joinWords (args.map quoted) ++ ' ' :: rest) =
      args.map .word ++ scan .bare none rest := by
  induction args with
  | nil => rfl
  | cons a args ih =>
    cases args with
    | nil =>
      rw [List.map_singleton, joinWords, List.intercalate_singleton, scan_quoted, scan_blank]
      rfl
    | cons b args =>
      rw [List.map_cons, List.map_cons, joinWords_cons_cons, List.append_assoc, scan_quoted,
        List.cons_append, scan_blank, ← List.map_cons, ih]
      rfl

theorem scan_joinWords_quoted_end (args : List Str) :
    scan .bare none (joinWords (args.map quoted)) = args.map .word := by
  induction args with
  | nil => rfl
  | cons a args ih =>
    cases args with
    | nil =>
      have hlast := scan_quoted a []
      rw [List.append_nil] at hlast
      rw [List.map_singleton, joinWords, List.intercalate_singleton, hlast]
      rfl
    | cons b args =>
      rw [List.map_cons, List.map_cons, joinWords_cons_cons, scan_quoted, scan_blank,
        ← List.map_cons, ih]
      rfl

theorem nul_notMem_quoted {s : Str} (h : nul ∉ s) : nul ∉ quoted s := by
  intro hmem
  rw [quoted, escapeQuotes, List.cons_append, List.mem_cons, List.mem_append, List.mem_flatMap,
    List.mem_singleton] at hmem
  rcases hmem with heq | ⟨c, hc, hin⟩ | heq
  · exact absurd heq (by decide)
  · by_cases hq : c = singleQuote
    · rw [if_pos hq] at hin
      exact absurd hin (by decide)
    · rw [if_neg hq, List.mem_singleton] at hin
      exact h (hin ▸ hc)
  · exact absurd heq (by decide)

theorem nul_notMem_joinWords {ws : List Str} (h : ∀ w ∈ ws, nul ∉ w) : nul ∉ joinWords ws := by
  induction ws with
  | nil => exact List.not_mem_nil
  | cons w ws ih =>
    have htail := ih fun v hv => h v (List.mem_cons_of_mem w hv)
    cases ws with
    | nil =>
      rw [joinWords, List.intercalate_singleton]
      exact h w List.mem_cons_self
    | cons v ws =>
      rw [joinWords, List.intercalate_cons_cons, List.mem_append, List.mem_append,
        List.mem_singleton]
      rintro ((hw | hblank) | hrest)
      · exact h w List.mem_cons_self hw
      · exact absurd hblank (by decide)
      · exact htail hrest

/-- Without a NUL the whole line is read. -/
theorem tokenize_eq_scan {line : Str} (h : nul ∉ line) : tokenize line = scan .bare none line := by
  rw [tokenize, List.takeWhile_eq_self_iff.mpr]
  intro c hc
  simpa using fun heq : c = nul => h (heq ▸ hc)

/-- Quoted strings are read back as they are. -/
theorem tokenize_joinWords_quoted {args : List Str} (h : ∀ a ∈ args, nul ∉ a) :
    tokenize (joinWords (args.map quoted)) = args.map .word := by
  rw [tokenize_eq_scan, scan_joinWords_quoted_end]
  refine nul_notMem_joinWords fun w hw => ?_
  obtain ⟨a, ha, rfl⟩ := List.mem_map.mp hw
  exact nul_notMem_quoted (h a ha)

end HomelabMcp.Shell
