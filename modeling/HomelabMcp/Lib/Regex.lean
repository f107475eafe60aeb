import HomelabMcp.Lib.SlashPath

/-!
# Searching a text for a regular expression

A place in a text is what stands after it, and whether a word character stands before it.
A match leads from a place to another; `test` says whether there is one anywhere, which is
what a backtracking engine without look-around finds out.

- `test_prepend`: what matches a text matches it after a text whose end is no word character.
- `test_append`: and before one whose head is no word character, unless it uses `$`.
-/

namespace HomelabMcp

inductive Regex
  | empty
  | cls (p : Char → Bool)
  | seq (r s : Regex)
  | alt (r s : Regex)
  | star (r : Regex)
  /-- `\b`. -/
  | wordBoundary
  /-- `$`. -/
  | atEnd

namespace Regex

/-- `\w`. -/
def isWord (c : Char) : Bool :=
  c.isAlphanum || c == '_'

/-- A place in a text. -/
structure Place where
  afterWord : Bool
  rest : Str
  deriving DecidableEq

/-- A word character is next. -/
def Place.beforeWord (p : Place) : Bool :=
  (p.rest.head?.map isWord).getD false

def stepCls (f : Char → Bool) (p : Place) : List Place :=
  match p.rest with
  | [] => []
  | c :: rest => if f c then [⟨isWord c, rest⟩] else []

/-- As many steps as there are characters; each must get on. -/
def stepStar (f : Place → List Place) : Nat → Place → List Place
  | 0, p => [p]
  | n + 1, p => p :: ((f p).filter fun q => decide (q.rest.length < p.rest.length)).flatMap
      (stepStar f n)

/-- Where a match that begins at a place may end. -/
def step : Regex → Place → List Place
  | empty, p => [p]
  | cls f, p => stepCls f p
  | seq r s, p => (r.step p).flatMap s.step
  | alt r s, p => r.step p ++ s.step p
  | star r, p => stepStar r.step p.rest.length p
  | wordBoundary, p => if p.afterWord = p.beforeWord then [] else [p]
  | atEnd, p => if p.rest = [] then [p] else []

/-- The places of a text from one on. -/
def placesFrom : Bool → Str → List Place
  | w, [] => [⟨w, []⟩]
  | w, c :: rest => ⟨w, c :: rest⟩ :: placesFrom (isWord c) rest

def places (s : Str) : List Place :=
  placesFrom false s

/-- `pattern.test(s)`. -/
def test (r : Regex) (s : Str) : Bool :=
  (places s).any fun p => decide (r.step p ≠ [])

/-! ## Building expressions -/

/-- A text, character by character. -/
def lit (s : String) : Regex :=
  s.toList.foldr (fun c r => .seq (.cls (· == c)) r) .empty

/-- One of some texts. -/
def oneOf : List String → Regex
  | [] => .cls fun _ => false
  | [s] => lit s
  | s :: l => .alt (lit s) (oneOf l)

/-- The expressions one after the other. -/
def concat (l : List Regex) : Regex :=
  l.foldr .seq .empty

/-- `r+`. -/
def plus (r : Regex) : Regex :=
  .seq r (.star r)

/-- The expression does not use `$`. -/
def endless : Regex → Bool
  | seq r s => r.endless && s.endless
  | alt r s => r.endless && s.endless
  | star r => r.endless
  | atEnd => false
  | _ => true

/-! ## Longer texts -/

variable {r : Regex} {p q : Place} {s t : Str}

theorem mem_step_cls {f : Char → Bool} :
    q ∈ (cls f).step p ↔ ∃ c t, p.rest = c :: t ∧ f c = true ∧ q = ⟨isWord c, t⟩ := by
  obtain ⟨w, rest⟩ := p
  cases rest with
  | nil => simp [step, stepCls]
  | cons c t =>
    show q ∈ (if f c then [⟨isWord c, t⟩] else []) ↔ _
    split
    · next hc => simp [hc]
    · next hc => simp [hc]

theorem mem_step_wordBoundary :
    q ∈ wordBoundary.step p ↔ p.afterWord ≠ p.beforeWord ∧ q = p := by
  show q ∈ (if p.afterWord = p.beforeWord then [] else [p]) ↔ _
  split
  · next heq => simp [heq]
  · next hne => simp [hne]

theorem mem_step_atEnd : q ∈ atEnd.step p ↔ p.rest = [] ∧ q = p := by
  show q ∈ (if p.rest = [] then [p] else []) ↔ _
  split
  · next hnil => simp [hnil]
  · next hnil => simp [hnil]

theorem mem_step_seq {r' : Regex} :
    q ∈ (seq r r').step p ↔ ∃ m ∈ r.step p, q ∈ r'.step m :=
  List.mem_flatMap

theorem mem_step_alt {r' : Regex} :
    q ∈ (alt r r').step p ↔ q ∈ r.step p ∨ q ∈ r'.step p :=
  List.mem_append

theorem test_iff : test r s = true ↔ ∃ p ∈ places s, ∃ q, q ∈ r.step p := by
  unfold test
  rw [List.any_eq_true]
  simp only [decide_eq_true_eq, ne_eq, List.eq_nil_iff_forall_not_mem, not_forall, not_not]

/-- The places of a text that ends without a word character, and then of what follows. -/
theorem placesFrom_append {w : Bool} (hs : s ≠ []) :
    placesFrom ((s.getLast hs |> isWord)) t ⊆ placesFrom w (s ++ t) := by
  induction s generalizing w with
  | nil => exact absurd rfl hs
  | cons c s ih =>
    rw [List.cons_append, placesFrom]
    refine List.subset_cons_of_subset _ ?_
    cases s with
    | nil => exact List.Subset.refl _
    | cons d s => exact ih (List.cons_ne_nil d s)

/-- A text before, whose end is no word character, takes no match away. -/
theorem test_prepend (hs : ∀ c, s.getLast? = some c → isWord c = false) (h : test r t = true) :
    test r (s ++ t) = true := by
  by_cases hnil : s = []
  · rw [hnil]
    exact h
  · obtain ⟨p, hp, hmatch⟩ := test_iff.mp h
    have hlast := hs _ (List.getLast?_eq_some_getLast hnil)
    refine test_iff.mpr ⟨p, ?_, hmatch⟩
    have hsub := placesFrom_append (w := false) (t := t) hnil
    rw [hlast] at hsub
    exact hsub hp

/-- The place, with a text after the whole. -/
def Place.extend (p : Place) (t : Str) : Place :=
  ⟨p.afterWord, p.rest ++ t⟩

theorem extend_mem_placesFrom {w : Bool} (h : p ∈ placesFrom w s) :
    p.extend t ∈ placesFrom w (s ++ t) := by
  induction s generalizing w with
  | nil =>
    rw [List.mem_singleton.mp h]
    show (⟨w, t⟩ : Place) ∈ placesFrom w t
    cases t with
    | nil => exact List.mem_cons_self
    | cons c t => exact List.mem_cons_self
  | cons c s ih =>
    rcases List.mem_cons.mp h with rfl | h
    · exact List.mem_cons_self
    · exact List.mem_cons_of_mem _ (ih h)

/-- A star goes on to match, with more to come. -/
theorem extend_mem_stepStar {f : Place → List Place}
    (hf : ∀ p q, q ∈ f p → q.extend t ∈ f (p.extend t)) {n m : Nat} (hnm : n ≤ m)
    (h : q ∈ stepStar f n p) : q.extend t ∈ stepStar f m (p.extend t) := by
  induction n generalizing m p with
  | zero =>
    rw [List.mem_singleton.mp h]
    cases m with
    | zero => exact List.mem_singleton.mpr rfl
    | succ m => exact List.mem_cons_self
  | succ n ih =>
    obtain ⟨m, rfl⟩ : ∃ k, m = k + 1 := ⟨m - 1, by omega⟩
    rcases List.mem_cons.mp h with rfl | h
    · exact List.mem_cons_self
    · obtain ⟨o, ho, hq⟩ := List.mem_flatMap.mp h
      obtain ⟨hstep, hshorter⟩ := List.mem_filter.mp ho
      refine List.mem_cons_of_mem _ (List.mem_flatMap.mpr ⟨o.extend t, ?_, ih (by omega) hq⟩)
      refine List.mem_filter.mpr ⟨hf p o hstep, decide_eq_true ?_⟩
      have hlt := of_decide_eq_true hshorter
      unfold Place.extend
      rw [List.length_append, List.length_append]
      omega

theorem beforeWord_extend (ht : ∀ c, t.head? = some c → isWord c = false) :
    (p.extend t).beforeWord = p.beforeWord := by
  obtain ⟨w, rest⟩ := p
  cases rest with
  | nil =>
    -- At the end of the text, what follows is no word character either.
    cases t with
    | nil => rfl
    | cons c t => exact ht c rfl
  | cons c rest => rfl

/-- Without `$`, a match is one before a text whose head is no word character. -/
theorem extend_mem_step (hr : r.endless = true) (ht : ∀ c, t.head? = some c → isWord c = false)
    (h : q ∈ r.step p) : q.extend t ∈ r.step (p.extend t) := by
  induction r generalizing p q with
  | empty =>
    rw [List.mem_singleton.mp h]
    exact List.mem_singleton.mpr rfl
  | cls f =>
    obtain ⟨c, rest, hrest, hc, rfl⟩ := mem_step_cls.mp h
    refine mem_step_cls.mpr ⟨c, rest ++ t, ?_, hc, rfl⟩
    show p.rest ++ t = c :: (rest ++ t)
    rw [hrest, List.cons_append]
  | seq r s ihr ihs =>
    obtain ⟨hr₁, hr₂⟩ := Bool.and_eq_true_iff.mp hr
    obtain ⟨m, hm, hq⟩ := mem_step_seq.mp h
    exact mem_step_seq.mpr ⟨m.extend t, ihr hr₁ hm, ihs hr₂ hq⟩
  | alt r s ihr ihs =>
    obtain ⟨hr₁, hr₂⟩ := Bool.and_eq_true_iff.mp hr
    rcases mem_step_alt.mp h with h | h
    · exact mem_step_alt.mpr (Or.inl (ihr hr₁ h))
    · exact mem_step_alt.mpr (Or.inr (ihs hr₂ h))
  | star r ih =>
    refine extend_mem_stepStar (fun p q => ih hr) ?_ h
    unfold Place.extend
    rw [List.length_append]
    omega
  | wordBoundary =>
    obtain ⟨hne, rfl⟩ := mem_step_wordBoundary.mp h
    refine mem_step_wordBoundary.mpr ⟨?_, rfl⟩
    rw [beforeWord_extend ht]
    exact hne
  | atEnd => cases hr

theorem test_append (hr : r.endless = true) (ht : ∀ c, t.head? = some c → isWord c = false)
    (h : test r s = true) : test r (s ++ t) = true := by
  obtain ⟨p, hp, q, hq⟩ := test_iff.mp h
  exact test_iff.mpr ⟨p.extend t, extend_mem_placesFrom hp, q.extend t, extend_mem_step hr ht hq⟩

/-- A match that ended with the text goes on with a character of the class. -/
theorem test_seq_cls {f : Char → Bool} {c : Char} (hr : r.endless = true)
    (hc : isWord c = false) (hf : f c = true) (h : test (seq r atEnd) s = true) :
    test (seq r (cls f)) (s ++ c :: t) = true := by
  obtain ⟨p, hp, q, hq⟩ := test_iff.mp h
  obtain ⟨m, hm, hq⟩ := mem_step_seq.mp hq
  obtain ⟨hrest, rfl⟩ := mem_step_atEnd.mp hq
  have ht : ∀ d, (c :: t).head? = some d → isWord d = false := by
    intro d hd
    rw [← Option.some.inj hd]
    exact hc
  refine test_iff.mpr ⟨p.extend (c :: t), extend_mem_placesFrom hp, ⟨isWord c, t⟩, ?_⟩
  refine mem_step_seq.mpr ⟨_, extend_mem_step hr ht hm, mem_step_cls.mpr ⟨c, t, ?_, hf, rfl⟩⟩
  show q.rest ++ c :: t = c :: t
  rw [hrest, List.nil_append]

theorem test_seq_alt {r₁ r₂ : Regex} :
    test (seq r (alt r₁ r₂)) s = true ↔ test (seq r r₁) s = true ∨ test (seq r r₂) s = true := by
  rw [test_iff, test_iff, test_iff]
  constructor
  · rintro ⟨p, hp, q, hq⟩
    obtain ⟨m, hm, hq⟩ := mem_step_seq.mp hq
    rcases mem_step_alt.mp hq with hq | hq
    · exact Or.inl ⟨p, hp, q, mem_step_seq.mpr ⟨m, hm, hq⟩⟩
    · exact Or.inr ⟨p, hp, q, mem_step_seq.mpr ⟨m, hm, hq⟩⟩
  · rintro (⟨p, hp, q, hq⟩ | ⟨p, hp, q, hq⟩)
    · obtain ⟨m, hm, hq⟩ := mem_step_seq.mp hq
      exact ⟨p, hp, q, mem_step_seq.mpr ⟨m, hm, mem_step_alt.mpr (Or.inl hq)⟩⟩
    · obtain ⟨m, hm, hq⟩ := mem_step_seq.mp hq
      exact ⟨p, hp, q, mem_step_seq.mpr ⟨m, hm, mem_step_alt.mpr (Or.inr hq)⟩⟩

/-! ## The last character -/

/-- A match takes a character. -/
def consumes : Regex → Bool
  | cls _ => true
  | seq r s => r.consumes || s.consumes
  | alt r s => r.consumes && s.consumes
  | _ => false

/-- No match takes `c` for its last character. -/
def avoidsLast (c : Char) : Regex → Bool
  | cls f => !f c
  | seq r s => s.avoidsLast c && (s.consumes || r.avoidsLast c)
  | alt r s => r.avoidsLast c && s.avoidsLast c
  | star r => r.avoidsLast c
  | _ => true

/-- What holds of a place, and of where each further step leads, holds where a star ends. -/
theorem stepStar_induction {f : Place → List Place} {P : Place → Prop}
    (hf : ∀ p q, P p → q ∈ f p → P q) {n : Nat} (hp : P p) (h : q ∈ stepStar f n p) : P q := by
  induction n generalizing p with
  | zero => rwa [List.mem_singleton.mp h]
  | succ n ih =>
    rcases List.mem_cons.mp h with rfl | h
    · exact hp
    · obtain ⟨o, ho, hq⟩ := List.mem_flatMap.mp h
      exact ih (hf p o hp (List.mem_filter.mp ho).1) hq

theorem suffix_of_mem_step (h : q ∈ r.step p) : q.rest <:+ p.rest := by
  induction r generalizing p q with
  | empty => rw [List.mem_singleton.mp h]
  | cls f =>
    obtain ⟨c, rest, hrest, -, rfl⟩ := mem_step_cls.mp h
    rw [hrest]
    exact List.suffix_cons c rest
  | seq r s ihr ihs =>
    obtain ⟨m, hm, hq⟩ := mem_step_seq.mp h
    exact (ihs hq).trans (ihr hm)
  | alt r s ihr ihs =>
    rcases mem_step_alt.mp h with h | h
    · exact ihr h
    · exact ihs h
  | star r ih =>
    exact stepStar_induction (fun o o' ho hstep => (ih hstep).trans ho) (List.suffix_refl _) h
  | wordBoundary => rw [(mem_step_wordBoundary.mp h).2]
  | atEnd => rw [(mem_step_atEnd.mp h).2]

theorem rest_ne_nil_of_consumes (hr : r.consumes = true) (h : q ∈ r.step p) : p.rest ≠ [] := by
  induction r generalizing p q with
  | cls f =>
    obtain ⟨c, rest, hrest, -⟩ := mem_step_cls.mp h
    rw [hrest]
    exact List.cons_ne_nil c rest
  | seq r s ihr ihs =>
    obtain ⟨m, hm, hq⟩ := mem_step_seq.mp h
    rcases Bool.or_eq_true_iff.mp hr with hr | hs
    · exact ihr hr hm
    · intro hp
      have hsuffix := suffix_of_mem_step hm
      rw [hp] at hsuffix
      exact ihs hs hq (List.suffix_nil.mp hsuffix)
  | alt r s ihr ihs =>
    obtain ⟨hr, hs⟩ := Bool.and_eq_true_iff.mp hr
    rcases mem_step_alt.mp h with h | h
    · exact ihr hr h
    · exact ihs hs h
  | _ => cases hr

theorem getLast?_eq_of_suffix {s t : Str} (h : s <:+ t) (hs : s ≠ []) :
    s.getLast? = t.getLast? := by
  obtain ⟨l, rfl⟩ := h
  rw [List.getLast?_append_of_ne_nil l hs]

theorem getLast?_ne_of_avoidsLast {c : Char} (hr : r.avoidsLast c = true) (h : q ∈ r.step p)
    (hq : q.rest = []) : p.rest.getLast? ≠ some c := by
  induction r generalizing p q with
  | cls f =>
    obtain ⟨d, rest, hrest, hd, rfl⟩ := mem_step_cls.mp h
    have hq : rest = [] := hq
    subst hq
    rw [hrest]
    intro hlast
    have hdc : d = c := Option.some.inj hlast
    have hr : (!f c) = true := hr
    rw [← hdc, hd] at hr
    cases hr
  | seq r s ihr ihs =>
    obtain ⟨hs, hr⟩ := Bool.and_eq_true_iff.mp hr
    obtain ⟨m, hm, hmq⟩ := mem_step_seq.mp h
    by_cases hrest : m.rest = []
    · -- The second part takes nothing, so the first has taken the last character.
      rcases Bool.or_eq_true_iff.mp hr with hcons | hr
      · exact absurd hrest (rest_ne_nil_of_consumes hcons hmq)
      · exact ihr hr hm hrest
    · rw [← getLast?_eq_of_suffix (suffix_of_mem_step hm) hrest]
      exact ihs hs hmq hq
  | alt r s ihr ihs =>
    obtain ⟨hr, hs⟩ := Bool.and_eq_true_iff.mp hr
    rcases mem_step_alt.mp h with h | h
    · exact ihr hr h hq
    · exact ihs hs h hq
  | star r ih =>
    intro hlast
    -- Up to where the star ends, `c` stands last in what is left.
    have hkept : q.rest.getLast? = some c := by
      refine stepStar_induction (P := fun o => o.rest.getLast? = some c) ?_ hlast h
      intro o o' ho hstep
      have hne : o'.rest ≠ [] := fun hnil => ih hr hstep hnil ho
      rw [getLast?_eq_of_suffix (suffix_of_mem_step hstep) hne]
      exact ho
    rw [hq] at hkept
    cases hkept
  | empty =>
    rw [← List.mem_singleton.mp h, hq]
    exact (Option.some_ne_none c).symm
  | wordBoundary =>
    rw [← (mem_step_wordBoundary.mp h).2, hq]
    exact (Option.some_ne_none c).symm
  | atEnd =>
    rw [(mem_step_atEnd.mp h).1]
    exact (Option.some_ne_none c).symm

theorem eq_of_mem_stepStar {f : Place → List Place} {n : Nat} (hp : p.rest = [])
    (h : q ∈ stepStar f n p) : q = p := by
  cases n with
  | zero => exact List.mem_singleton.mp h
  | succ n =>
    rcases List.mem_cons.mp h with rfl | h
    · rfl
    · -- No step from the end of the text gets on.
      obtain ⟨o, ho, -⟩ := List.mem_flatMap.mp h
      have hshorter := of_decide_eq_true (List.mem_filter.mp ho).2
      rw [hp] at hshorter
      cases hshorter

theorem mem_stepStar_extend {f : Place → List Place} {c : Char}
    (hf : ∀ p q, q ∈ f (p.extend [c]) → q.rest = [] ∨ ∃ q', q = q'.extend [c] ∧ q' ∈ f p)
    {n m : Nat} (hm : p.rest.length ≤ m) (h : q ∈ stepStar f n (p.extend [c])) :
    q.rest = [] ∨ ∃ q', q = q'.extend [c] ∧ q' ∈ stepStar f m p := by
  induction n generalizing m p with
  | zero =>
    refine Or.inr ⟨p, List.mem_singleton.mp h, ?_⟩
    cases m with
    | zero => exact List.mem_singleton.mpr rfl
    | succ m => exact List.mem_cons_self
  | succ n ih =>
    rcases List.mem_cons.mp h with rfl | h
    · refine Or.inr ⟨p, rfl, ?_⟩
      cases m with
      | zero => exact List.mem_singleton.mpr rfl
      | succ m => exact List.mem_cons_self
    · obtain ⟨o, ho, hq⟩ := List.mem_flatMap.mp h
      obtain ⟨hstep, hshorter⟩ := List.mem_filter.mp ho
      have hshorter := of_decide_eq_true hshorter
      rcases hf p o hstep with hnil | ⟨o', rfl, ho'⟩
      · -- Past the character there is nothing left to match.
        rw [eq_of_mem_stepStar hnil hq]
        exact Or.inl hnil
      · have hlt : o'.rest.length < p.rest.length := by
          unfold Place.extend at hshorter
          rw [List.length_append, List.length_append] at hshorter
          omega
        obtain ⟨m, rfl⟩ : ∃ k, m = k + 1 := ⟨m - 1, by omega⟩
        have hm' : o'.rest.length ≤ m := by omega
        refine (ih hm' hq).imp_right ?_
        rintro ⟨q', hq', hmem⟩
        refine ⟨q', hq', List.mem_cons_of_mem _ (List.mem_flatMap.mpr ⟨o', ?_, hmem⟩)⟩
        exact List.mem_filter.mpr ⟨ho', decide_eq_true hlt⟩

/-- A match in a text with one more character ends past it, or is one in the text. -/
theorem mem_step_extend {c : Char} (hr : r.endless = true) (hc : isWord c = false)
    (h : q ∈ r.step (p.extend [c])) : q.rest = [] ∨ ∃ q', q = q'.extend [c] ∧ q' ∈ r.step p := by
  induction r generalizing p q with
  | empty => exact Or.inr ⟨p, List.mem_singleton.mp h, List.mem_singleton.mpr rfl⟩
  | cls f =>
    obtain ⟨d, rest, hrest, hd, rfl⟩ := mem_step_cls.mp h
    obtain ⟨w, l⟩ := p
    cases l with
    | nil => exact Or.inl (List.cons.inj hrest).2.symm
    | cons e l =>
      obtain ⟨rfl, rfl⟩ := List.cons.inj hrest
      exact Or.inr ⟨⟨isWord e, l⟩, rfl, mem_step_cls.mpr ⟨e, l, rfl, hd, rfl⟩⟩
  | seq r s ihr ihs =>
    obtain ⟨hr, hs⟩ := Bool.and_eq_true_iff.mp hr
    obtain ⟨m, hm, hmq⟩ := mem_step_seq.mp h
    rcases ihr hr hm with hnil | ⟨m', rfl, hm'⟩
    · have hsuffix := suffix_of_mem_step hmq
      rw [hnil] at hsuffix
      exact Or.inl (List.suffix_nil.mp hsuffix)
    · rcases ihs hs hmq with hnil | ⟨q', hq', hstep⟩
      · exact Or.inl hnil
      · exact Or.inr ⟨q', hq', mem_step_seq.mpr ⟨m', hm', hstep⟩⟩
  | alt r s ihr ihs =>
    obtain ⟨hr, hs⟩ := Bool.and_eq_true_iff.mp hr
    rcases mem_step_alt.mp h with h | h
    · refine (ihr hr h).imp_right ?_
      rintro ⟨q', hq', hstep⟩
      exact ⟨q', hq', mem_step_alt.mpr (Or.inl hstep)⟩
    · refine (ihs hs h).imp_right ?_
      rintro ⟨q', hq', hstep⟩
      exact ⟨q', hq', mem_step_alt.mpr (Or.inr hstep)⟩
  | star r ih => exact mem_stepStar_extend (fun o o' => ih hr) (le_refl _) h
  | wordBoundary =>
    obtain ⟨hne, rfl⟩ := mem_step_wordBoundary.mp h
    rw [beforeWord_extend (by intro d hd; rw [← Option.some.inj hd]; exact hc)] at hne
    exact Or.inr ⟨p, rfl, mem_step_wordBoundary.mpr ⟨hne, rfl⟩⟩
  | atEnd => cases hr

theorem mem_placesFrom_extend {c : Char} {w : Bool} (h : p ∈ placesFrom w (s ++ [c])) :
    p.rest = [] ∨ ∃ p', p = p'.extend [c] ∧ p' ∈ placesFrom w s := by
  induction s generalizing w with
  | nil =>
    rcases List.mem_cons.mp h with rfl | h
    · exact Or.inr ⟨⟨w, []⟩, rfl, List.mem_singleton.mpr rfl⟩
    · rw [List.mem_singleton.mp h]
      exact Or.inl rfl
  | cons d s ih =>
    rcases List.mem_cons.mp h with rfl | h
    · exact Or.inr ⟨⟨w, d :: s⟩, rfl, List.mem_cons_self⟩
    · refine (ih h).imp_right ?_
      rintro ⟨p', hp', hmem⟩
      exact ⟨p', hp', List.mem_cons_of_mem _ hmem⟩

/-- One more character that no match takes last brings no match. -/
theorem test_of_append {c : Char} (hr : r.endless = true) (hc : isWord c = false)
    (hcons : r.consumes = true) (havoid : r.avoidsLast c = true)
    (h : test r (s ++ [c]) = true) : test r s = true := by
  obtain ⟨p, hp, q, hq⟩ := test_iff.mp h
  rcases mem_placesFrom_extend hp with hnil | ⟨p', rfl, hp'⟩
  · exact absurd hnil (rest_ne_nil_of_consumes hcons hq)
  · rcases mem_step_extend hr hc hq with hnil | ⟨q', -, hq'⟩
    · refine absurd ?_ (getLast?_ne_of_avoidsLast havoid hq hnil)
      exact List.getLast?_append_of_ne_nil _ (List.cons_ne_nil c [])
    · exact test_iff.mpr ⟨p', hp', q', hq'⟩

/-- Nothing that would take other than `c` last ends with `c`. -/
theorem test_atEnd_append {c : Char} (havoid : (seq r atEnd).avoidsLast c = true)
    (hcons : r.consumes = true) : test (seq r atEnd) (s ++ [c]) = false := by
  refine Bool.eq_false_iff.mpr fun h => ?_
  obtain ⟨p, hp, q, hq⟩ := test_iff.mp h
  have hq' : q.rest = [] := by
    obtain ⟨m, -, hm⟩ := mem_step_seq.mp hq
    obtain ⟨hrest, rfl⟩ := mem_step_atEnd.mp hm
    exact hrest
  rcases mem_placesFrom_extend hp with hnil | ⟨p', rfl, hp'⟩
  · obtain ⟨m, hm, -⟩ := mem_step_seq.mp hq
    exact rest_ne_nil_of_consumes hcons hm hnil
  · refine getLast?_ne_of_avoidsLast havoid hq hq' ?_
    exact List.getLast?_append_of_ne_nil _ (List.cons_ne_nil c [])

end Regex

end HomelabMcp
