import Mathlib.Logic.Relation
import HomelabMcp.Lib.Text

/-!
# Regular expressions with captures, by backtracking

The matcher tries the alternatives in their order and hands each way to match on to what
comes after; the first way that goes through is the match. `Steps` says what a match is,
without the order.

- `Pat.go_sound`: what the matcher finds is a match.
- `Steps.advances`: a match takes a piece of the text.
- `rewrite`: every match replaced, one after the other, with a count. `Honest.rewrite`: when
  the count stays 0 the text is as it was, and when it does not, a replacement shows.
-/

namespace HomelabMcp.Backtrack

open Text

inductive Pat
  | empty
  | cls (p : Char → Bool)
  | seq (a b : Pat)
  | alt (a b : Pat)
  /-- `a*`, or `a*?` when it is lazy. -/
  | star (isLazy : Bool) (a : Pat)
  /-- The `n`-th group of parentheses. -/
  | group (n : Nat) (a : Pat)
  /-- `\n`. -/
  | backref (n : Nat)
  /-- `\b`. -/
  | wordBoundary
  /-- `^`. -/
  | atStart
  /-- `$`. -/
  | atEnd
  /-- `(?<![p])`. -/
  | notAfter (p : Char → Bool)
  /-- `(?![p])`. -/
  | notBefore (p : Char → Bool)

/-- A place in a text, and what the groups have taken so far. -/
structure Spot where
  /-- The text before, its last character first. -/
  before : Str
  rest : Str
  groups : List (Nat × Str)

/-- What the group took last. -/
def Spot.group? (s : Spot) (n : Nat) : Option Str :=
  s.groups.lookup n

/-- The place after a piece of the text. -/
def Spot.skip (s : Spot) (w : Str) : Spot :=
  ⟨w.reverse ++ s.before, s.rest.drop w.length, s.groups⟩

/-- The text from one place to a later one. -/
def Spot.upTo (s t : Spot) : Str :=
  s.rest.take (s.rest.length - t.rest.length)

/-- `\w`. -/
def isWord (c : Char) : Bool :=
  c.isAlphanum || c == '_'

def headIs (p : Char → Bool) (s : Str) : Bool :=
  (s.head?.map p).getD false

namespace Pat

variable {β : Type}

/-- The body again and again, each time a little further, and then what comes after; as many
times as there are characters. -/
def iterate (body : (Spot → Option β) → Spot → Option β) (isLazy : Bool) :
    Nat → (Spot → Option β) → Spot → Option β
  | 0, k, s => k s
  | n + 1, k, s =>
    let again := fun _ : Unit =>
      body (fun t => if t.rest.length < s.rest.length then iterate body isLazy n k t else none) s
    let leave := fun _ : Unit => k s
    if isLazy then (leave ()).orElse again else (again ()).orElse leave

/-- The matcher: `k` is what comes after the pattern. -/
def go : Pat → (Spot → Option β) → Spot → Option β
  | empty, k, s => k s
  | cls p, k, s =>
    match s.rest with
    | [] => none
    | c :: rest => if p c then k ⟨c :: s.before, rest, s.groups⟩ else none
  | seq a b, k, s => a.go (b.go k) s
  | alt a b, k, s => (a.go k s).orElse fun _ => b.go k s
  | star isLazy a, k, s => iterate a.go isLazy s.rest.length k s
  | group n a, k, s => a.go (fun t => k { t with groups := (n, s.upTo t) :: t.groups }) s
  | backref n, k, s =>
    -- A group that took no part matches the empty text.
    let w := (s.group? n).getD []
    if w <+: s.rest then k (s.skip w) else none
  | wordBoundary, k, s => if headIs isWord s.before ≠ headIs isWord s.rest then k s else none
  | atStart, k, s => if s.before = [] then k s else none
  | atEnd, k, s => if s.rest = [] then k s else none
  | notAfter p, k, s => if headIs p s.before then none else k s
  | notBefore p, k, s => if headIs p s.rest then none else k s

/-- The first match at a place. -/
def matchAt (p : Pat) (before rest : Str) : Option Spot :=
  p.go some ⟨before, rest, []⟩

/-! ## Building patterns -/

/-- A text, character by character. -/
def lit (s : String) : Pat :=
  s.toList.foldr (fun c r => .seq (.cls (· == c)) r) .empty

/-- The same under `i`: an ASCII letter in either case. -/
def litI (s : Str) : Pat :=
  s.foldr (fun c r => .seq (.cls fun d => d.toLower == c.toLower) r) .empty

/-- The patterns one after the other. -/
def concat (l : List Pat) : Pat :=
  l.foldr .seq .empty

/-- One of some patterns. -/
def oneOf : List Pat → Pat
  | [] => .cls fun _ => false
  | [a] => a
  | a :: l => .alt a (oneOf l)

/-- `a?`. -/
def opt (a : Pat) : Pat :=
  .alt a .empty

/-- `a*`. -/
def many (a : Pat) : Pat :=
  .star false a

/-- `a+`. -/
def plus (a : Pat) : Pat :=
  .seq a (many a)

/-- `a{n}`. -/
def times (n : Nat) (a : Pat) : Pat :=
  concat (List.replicate n a)

/-- `a{n,}`. -/
def atLeast (n : Nat) (a : Pat) : Pat :=
  .seq (times n a) (many a)

/-- `a{0,n}`. -/
def atMost : Nat → Pat → Pat
  | 0, _ => .empty
  | n + 1, a => opt (.seq a (atMost n a))

/-! ## What a match is -/

/-- A match of the pattern leads from one place to the other. -/
def Steps : Pat → Spot → Spot → Prop
  | empty, s, t => t = s
  | cls p, s, t => ∃ c rest, s.rest = c :: rest ∧ p c = true ∧ t = ⟨c :: s.before, rest, s.groups⟩
  | seq a b, s, t => ∃ m, a.Steps s m ∧ b.Steps m t
  | alt a b, s, t => a.Steps s t ∨ b.Steps s t
  | star _ a, s, t => Relation.ReflTransGen a.Steps s t
  | group n a, s, t => ∃ m, a.Steps s m ∧ t = { m with groups := (n, s.upTo m) :: m.groups }
  | backref n, s, t => (s.group? n).getD [] <+: s.rest ∧ t = s.skip ((s.group? n).getD [])
  | wordBoundary, s, t => headIs isWord s.before ≠ headIs isWord s.rest ∧ t = s
  | atStart, s, t => s.before = [] ∧ t = s
  | atEnd, s, t => s.rest = [] ∧ t = s
  | notAfter p, s, t => headIs p s.before = false ∧ t = s
  | notBefore p, s, t => headIs p s.rest = false ∧ t = s

theorem orElse_eq_some {x : Option β} {y : Unit → Option β} {b : β} (h : x.orElse y = some b) :
    x = some b ∨ y () = some b := by
  cases x with
  | none => exact .inr h
  | some a => exact .inl h

theorem iterate_sound {body : (Spot → Option β) → Spot → Option β} {R : Spot → Spot → Prop}
    (hbody : ∀ k s b, body k s = some b → ∃ t, R s t ∧ k t = some b) (isLazy : Bool) (n : Nat)
    {k : Spot → Option β} {s : Spot} {b : β} (h : iterate body isLazy n k s = some b) :
    ∃ t, Relation.ReflTransGen R s t ∧ k t = some b := by
  induction n generalizing s with
  | zero => exact ⟨s, .refl, h⟩
  | succ n ih =>
    have hagain (hb : body (fun t => if t.rest.length < s.rest.length then
        iterate body isLazy n k t else none) s = some b) :
        ∃ t, Relation.ReflTransGen R s t ∧ k t = some b := by
      obtain ⟨m, hm, hrest⟩ := hbody _ _ _ hb
      obtain ⟨-, hrest⟩ := Option.ite_none_right_eq_some.mp hrest
      obtain ⟨t, ht, hk⟩ := ih hrest
      exact ⟨t, .head hm ht, hk⟩
    unfold iterate at h
    cases isLazy with
    | true =>
      rcases orElse_eq_some h with hleave | hb
      · exact ⟨s, .refl, hleave⟩
      · exact hagain hb
    | false =>
      rcases orElse_eq_some h with hb | hleave
      · exact hagain hb
      · exact ⟨s, .refl, hleave⟩

/-- What the matcher hands on, it has matched. -/
theorem go_sound (p : Pat) {k : Spot → Option β} {s : Spot} {b : β} (h : p.go k s = some b) :
    ∃ t, p.Steps s t ∧ k t = some b := by
  induction p generalizing k s b with
  | empty => exact ⟨s, rfl, h⟩
  | cls p =>
    unfold go at h
    split at h
    · cases h
    · next c rest hrest =>
      obtain ⟨hc, hk⟩ := Option.ite_none_right_eq_some.mp h
      exact ⟨_, ⟨c, rest, hrest, hc, rfl⟩, hk⟩
  | seq a b iha ihb =>
    obtain ⟨m, hm, hrest⟩ := iha h
    obtain ⟨t, ht, hk⟩ := ihb hrest
    exact ⟨t, ⟨m, hm, ht⟩, hk⟩
  | alt a b iha ihb =>
    rcases orElse_eq_some h with h | h
    · obtain ⟨t, ht, hk⟩ := iha h
      exact ⟨t, .inl ht, hk⟩
    · obtain ⟨t, ht, hk⟩ := ihb h
      exact ⟨t, .inr ht, hk⟩
  | star isLazy a ih => exact iterate_sound (fun _ _ _ hb => ih hb) isLazy _ h
  | group n a ih =>
    obtain ⟨m, hm, hk⟩ := ih h
    exact ⟨_, ⟨m, hm, rfl⟩, hk⟩
  | backref n =>
    obtain ⟨hstart, hk⟩ := Option.ite_none_right_eq_some.mp h
    exact ⟨_, ⟨hstart, rfl⟩, hk⟩
  | wordBoundary =>
    obtain ⟨hb, hk⟩ := Option.ite_none_right_eq_some.mp h
    exact ⟨s, ⟨hb, rfl⟩, hk⟩
  | atStart =>
    obtain ⟨hb, hk⟩ := Option.ite_none_right_eq_some.mp h
    exact ⟨s, ⟨hb, rfl⟩, hk⟩
  | atEnd =>
    obtain ⟨hb, hk⟩ := Option.ite_none_right_eq_some.mp h
    exact ⟨s, ⟨hb, rfl⟩, hk⟩
  | notAfter p =>
    obtain ⟨hb, hk⟩ := Option.ite_none_left_eq_some.mp h
    exact ⟨s, ⟨Bool.not_eq_true _ ▸ hb, rfl⟩, hk⟩
  | notBefore p =>
    obtain ⟨hb, hk⟩ := Option.ite_none_left_eq_some.mp h
    exact ⟨s, ⟨Bool.not_eq_true _ ▸ hb, rfl⟩, hk⟩

end Pat

/-! ## A match takes a piece of the text -/

/-- The second place is further on in the same text, or the same place. -/
def Advances (s t : Spot) : Prop :=
  ∃ w, s.rest = w ++ t.rest ∧ t.before = w.reverse ++ s.before

theorem Advances.refl (s : Spot) : Advances s s :=
  ⟨[], rfl, rfl⟩

theorem Advances.trans {s t u : Spot} (h : Advances s t) (h' : Advances t u) : Advances s u := by
  obtain ⟨v, hv, hbefore⟩ := h
  obtain ⟨w, hw, hbefore'⟩ := h'
  refine ⟨v ++ w, ?_, ?_⟩
  · rw [hv, hw, List.append_assoc]
  · rw [hbefore', hbefore, List.reverse_append, List.append_assoc]

theorem Pat.Steps.advances {p : Pat} {s t : Spot} (h : p.Steps s t) : Advances s t := by
  induction p generalizing s t with
  | empty =>
    cases h
    exact .refl s
  | cls p =>
    obtain ⟨c, rest, hrest, -, rfl⟩ := h
    exact ⟨[c], hrest, rfl⟩
  | seq a b iha ihb =>
    obtain ⟨m, hm, ht⟩ := h
    exact (iha hm).trans (ihb ht)
  | alt a b iha ihb => exact h.elim iha ihb
  | star isLazy a ih =>
    induction h with
    | refl => exact .refl s
    | tail _ hlast ihlast => exact ihlast.trans (ih hlast)
  | group n a ih =>
    obtain ⟨m, hm, rfl⟩ := h
    obtain ⟨w, hrest, hbefore⟩ := ih hm
    exact ⟨w, hrest, hbefore⟩
  | backref n =>
    obtain ⟨⟨rest, hrest⟩, rfl⟩ := h
    refine ⟨_, ?_, rfl⟩
    show s.rest = _ ++ s.rest.drop _
    rw [← hrest, List.drop_left]
  | wordBoundary | atStart | atEnd | notAfter p | notBefore p =>
    obtain ⟨-, rfl⟩ := h
    exact .refl _

/-- The piece that a match takes, and the rest. -/
theorem Advances.upTo_append {s t : Spot} (h : Advances s t) : s.upTo t ++ t.rest = s.rest := by
  obtain ⟨w, hw, -⟩ := h
  rw [Spot.upTo, hw, List.length_append, Nat.add_sub_cancel, List.take_left]

theorem Advances.rest_eq_drop {s t : Spot} (h : Advances s t) :
    t.rest = s.rest.drop (s.rest.length - t.rest.length) := by
  obtain ⟨w, hw, -⟩ := h
  rw [hw, List.length_append, Nat.add_sub_cancel, List.drop_left]

theorem Advances.upTo_trans {s m t : Spot} (h : Advances s m) (h' : Advances m t) :
    s.upTo t = s.upTo m ++ m.upTo t := by
  refine (List.append_left_inj t.rest).mp ?_
  rw [(h.trans h').upTo_append, List.append_assoc, h'.upTo_append, h.upTo_append]

/-- The pattern has no groups. -/
def Pat.groupless : Pat → Bool
  | .seq a b | .alt a b => a.groupless && b.groupless
  | .star _ a => a.groupless
  | .group _ _ => false
  | _ => true

theorem Pat.Steps.groups_eq {p : Pat} {s t : Spot} (hp : p.groupless = true) (h : p.Steps s t) :
    t.groups = s.groups := by
  induction p generalizing s t with
  | empty =>
    cases h
    rfl
  | cls p =>
    obtain ⟨c, rest, -, -, rfl⟩ := h
    rfl
  | seq a b iha ihb =>
    obtain ⟨ha, hb⟩ := Bool.and_eq_true_iff.mp hp
    obtain ⟨m, hm, ht⟩ := h
    exact (ihb hb ht).trans (iha ha hm)
  | alt a b iha ihb =>
    obtain ⟨ha, hb⟩ := Bool.and_eq_true_iff.mp hp
    exact h.elim (iha ha) (ihb hb)
  | star isLazy a ih =>
    induction h with
    | refl => rfl
    | tail _ hlast ihlast => exact (ih hp hlast).trans ihlast
  | group n a => cases hp
  | backref n | wordBoundary | atStart | atEnd | notAfter p | notBefore p =>
    obtain ⟨-, rfl⟩ := h
    rfl

/-- What a group takes. -/
theorem Pat.Steps.of_group {n : Nat} {a : Pat} {s t : Spot} (ha : a.groupless = true)
    (h : (Pat.group n a).Steps s t) : Advances s t ∧ t.groups = (n, s.upTo t) :: s.groups := by
  have hadvances := h.advances
  obtain ⟨m, hm, rfl⟩ := h
  exact ⟨hadvances, by rw [hm.groups_eq ha]; rfl⟩

/-! ## Replacing every match -/

/-- A match, as a callback is given it. -/
structure Found where
  /-- The text before, its last character first. -/
  before : Str
  whole : Str
  groups : List (Nat × Str)

def Found.group? (m : Found) (n : Nat) : Option Str :=
  m.groups.lookup n

def Found.group (m : Found) (n : Nat) : Str :=
  (m.group? n).getD []

def foundAt (s t : Spot) : Found :=
  ⟨s.before, s.upTo t, t.groups⟩

/-- The first match from a place on. -/
def Pat.findFrom (p : Pat) : Str → Str → Option (Found × Spot)
  | before, [] => (p.matchAt before []).map fun t => (foundAt ⟨before, [], []⟩ t, t)
  | before, c :: rest =>
    match p.matchAt before (c :: rest) with
    | some t => some (foundAt ⟨before, c :: rest, []⟩ t, t)
    | none => p.findFrom (c :: before) rest

/-- `text.match(pattern)`. -/
def Pat.find (p : Pat) (text : Str) : Option Found :=
  (p.findFrom [] text).map Prod.fst

/-- `pattern.test(text)`. -/
def Pat.test (p : Pat) (text : Str) : Bool :=
  (p.find text).isSome

theorem Pat.findFrom_rest {p : Pat} {before rest : Str} {m : Found} {t : Spot}
    (h : p.findFrom before rest = some (m, t)) :
    rest.take (rest.length - t.rest.length) ++ t.rest = rest := by
  have hsuffix : ∃ v, rest = v ++ t.rest := by
    have hmatch {before rest : Str} {u : Spot} (hu : p.matchAt before rest = some u) :
        ∃ v, rest = v ++ u.rest := by
      obtain ⟨w, hw, heq⟩ := p.go_sound hu
      cases heq
      exact ⟨_, hw.advances.upTo_append.symm⟩
    induction rest generalizing before with
    | nil =>
      obtain ⟨u, hu, heq⟩ := Option.map_eq_some_iff.mp h
      cases heq
      exact hmatch hu
    | cons c rest ih =>
      unfold findFrom at h
      split at h
      · next u hu =>
        cases h
        exact hmatch hu
      · obtain ⟨v, hv⟩ := ih h
        exact ⟨c :: v, by rw [hv]; rfl⟩
  obtain ⟨v, rfl⟩ := hsuffix
  rw [List.length_append, Nat.add_sub_cancel, List.take_left]

/-- The text from a place on, of which the first characters belong to the last match. -/
def Pat.rewriteFrom (p : Pat) (f : Found → Str × Nat) : Nat → Str → Str → Str × Nat
  | _, before, [] =>
    match p.matchAt before [] with
    | some t => f (foundAt ⟨before, [], []⟩ t)
    | none => ([], 0)
  | skip + 1, before, c :: rest => p.rewriteFrom f skip (c :: before) rest
  | 0, before, c :: rest =>
    match p.matchAt before (c :: rest) with
    | none =>
      let next := p.rewriteFrom f 0 (c :: before) rest
      (c :: next.1, next.2)
    | some t =>
      let m := f (foundAt ⟨before, c :: rest, []⟩ t)
      match (c :: rest).length - t.rest.length with
      | 0 =>
        -- An empty match: the next one starts a character further on.
        let next := p.rewriteFrom f 0 (c :: before) rest
        (m.1 ++ c :: next.1, m.2 + next.2)
      | n + 1 =>
        let next := p.rewriteFrom f n (c :: before) rest
        (m.1 ++ next.1, m.2 + next.2)

/-- `text.replace(pattern, f)` with the flag `g`: the new text, and what the callback counted. -/
def Pat.rewrite (p : Pat) (f : Found → Str × Nat) (text : Str) : Str × Nat :=
  p.rewriteFrom f 0 [] text

example : (Pat.seq (Pat.group 1 (Pat.plus (.cls Char.isDigit))) (Pat.lit "%")).rewrite
    (fun m => (m.group 1 ++ " in 100".toList, 1)) "5% or 12%, 7".toList =
      ("5 in 100 or 12 in 100, 7".toList, 2) := by
  decide +kernel

/-! ## What a count of replacements tells -/

/-- More text around takes the property away from no text. -/
def Lasting (P : Str → Prop) : Prop :=
  ∀ a x b, P x → P (a ++ x ++ b)

/-- The count is 0 only where the text stays as it is; where it is not, the new text shows it. -/
structure Honest (P : Str → Prop) (f : Str → Str × Nat) : Prop where
  same : ∀ s, (f s).2 = 0 → (f s).1 = s
  shown : ∀ s, 0 < (f s).2 → P (f s).1

/-- The same of a callback, for the matches of a pattern. -/
structure HonestAt (P : Str → Prop) (p : Pat) (f : Found → Str × Nat) : Prop where
  same : ∀ s t, p.Steps s t → s.groups = [] → (f (foundAt s t)).2 = 0 →
    (f (foundAt s t)).1 = s.upTo t
  shown : ∀ m, 0 < (f m).2 → P (f m).1

variable {P : Str → Prop} {p : Pat} {f g : Str → Str × Nat}

theorem Lasting.append_left (hP : Lasting P) (a : Str) {x : Str} (h : P x) : P (a ++ x) := by
  simpa using hP a x [] h

theorem Lasting.append_right (hP : Lasting P) {x : Str} (b : Str) (h : P x) : P (x ++ b) := by
  simpa using hP [] x b h

/-- A match that starts with `before` and `rest`, and leaves `t.rest`. -/
theorem matchAt_steps {before rest : Str} {t : Spot} (h : p.matchAt before rest = some t) :
    p.Steps ⟨before, rest, []⟩ t := by
  obtain ⟨u, hu, heq⟩ := p.go_sound h
  cases heq
  exact hu

section
variable {f : Found → Str × Nat}

theorem HonestAt.same_of_matchAt (h : HonestAt P p f) {before rest : Str} {t : Spot}
    (ht : p.matchAt before rest = some t)
    (hzero : (f (foundAt ⟨before, rest, []⟩ t)).2 = 0) :
    (f (foundAt ⟨before, rest, []⟩ t)).1 ++ t.rest = rest := by
  have hsteps := matchAt_steps ht
  rw [h.same _ _ hsteps rfl hzero]
  exact hsteps.advances.upTo_append

theorem HonestAt.rewriteFrom_same (h : HonestAt P p f) {skip : Nat} {before rest : Str}
    (hzero : (p.rewriteFrom f skip before rest).2 = 0) :
    (p.rewriteFrom f skip before rest).1 = rest.drop skip := by
  induction rest generalizing skip before with
  | nil =>
    unfold Pat.rewriteFrom at hzero ⊢
    rw [List.drop_nil]
    cases hmatch : p.matchAt before [] with
    | none => rfl
    | some t =>
      simp only [hmatch] at hzero ⊢
      exact (List.append_eq_nil_iff.mp (h.same_of_matchAt hmatch hzero)).1
  | cons c rest ih =>
    cases skip with
    | succ skip => exact ih hzero
    | zero =>
      unfold Pat.rewriteFrom at hzero ⊢
      rw [List.drop_zero]
      cases hmatch : p.matchAt before (c :: rest) with
      | none =>
        simp only [hmatch] at hzero ⊢
        rw [ih hzero, List.drop_zero]
      | some t =>
        simp only [hmatch] at hzero ⊢
        have hsame := h.same_of_matchAt hmatch
        have hdrop := (matchAt_steps hmatch).advances.rest_eq_drop
        cases hlen : (c :: rest).length - t.rest.length with
        | zero =>
          simp only [hlen] at hzero ⊢
          obtain ⟨hm, hnext⟩ := Nat.add_eq_zero_iff.mp hzero
          have hwhole := hsame hm
          rw [hdrop, hlen, List.drop_zero] at hwhole
          rw [ih hnext, List.drop_zero]
          exact hwhole
        | succ n =>
          simp only [hlen] at hzero ⊢
          obtain ⟨hm, hnext⟩ := Nat.add_eq_zero_iff.mp hzero
          have hwhole := hsame hm
          rw [hdrop, hlen, List.drop_succ_cons] at hwhole
          rw [ih hnext]
          exact hwhole

theorem HonestAt.rewriteFrom_shown (hP : Lasting P) (h : HonestAt P p f) {skip : Nat}
    {before rest : Str} (hpos : 0 < (p.rewriteFrom f skip before rest).2) :
    P (p.rewriteFrom f skip before rest).1 := by
  induction rest generalizing skip before with
  | nil =>
    unfold Pat.rewriteFrom at hpos ⊢
    cases hmatch : p.matchAt before [] with
    | none =>
      simp only [hmatch] at hpos
      cases hpos
    | some t =>
      simp only [hmatch] at hpos ⊢
      exact h.shown _ hpos
  | cons c rest ih =>
    cases skip with
    | succ skip => exact ih hpos
    | zero =>
      -- Either the callback counted here, or something further on did.
      have heither {m next : Str × Nat} {a : Str} (hm : 0 < m.2 → P m.1) (hnext : 0 < next.2 → P next.1)
          (hsum : 0 < m.2 + next.2) : P (m.1 ++ (a ++ next.1)) := by
        rcases Nat.eq_zero_or_pos m.2 with hzero | hsome
        · rw [hzero, Nat.zero_add] at hsum
          exact hP.append_left _ (hP.append_left _ (hnext hsum))
        · exact hP.append_right _ (hm hsome)
      unfold Pat.rewriteFrom at hpos ⊢
      cases hmatch : p.matchAt before (c :: rest) with
      | none =>
        simp only [hmatch] at hpos ⊢
        exact hP.append_left [c] (ih hpos)
      | some t =>
        simp only [hmatch] at hpos ⊢
        cases hlen : (c :: rest).length - t.rest.length with
        | zero =>
          simp only [hlen] at hpos ⊢
          exact heither (a := [c]) (h.shown _) ih hpos
        | succ n =>
          simp only [hlen] at hpos ⊢
          exact heither (a := []) (h.shown _) ih hpos

/-- Replacing all matches counts as honestly as the callback does. -/
theorem HonestAt.rewrite (hP : Lasting P) (h : HonestAt P p f) : Honest P (p.rewrite f) where
  same _ hzero := h.rewriteFrom_same hzero
  shown _ hpos := h.rewriteFrom_shown hP hpos

end

/-! ## One pass after the other -/

/-- The second pass over what the first has made; the counts add up. -/
def andThen (f g : Str → Str × Nat) (s : Str) : Str × Nat :=
  ((g (f s).1).1, (f s).2 + (g (f s).1).2)

theorem Honest.andThen (hf : Honest P f) (hg : Honest P g) : Honest P (andThen f g) where
  same s hzero := by
    obtain ⟨hfirst, hsecond⟩ := Nat.add_eq_zero_iff.mp hzero
    have hs := hf.same s hfirst
    exact (hg.same _ hsecond).trans hs
  shown s hpos := by
    rcases Nat.eq_zero_or_pos (g (f s).1).2 with hzero | hsome
    · have hfirst : 0 < (f s).2 := by
        have hsum : 0 < (f s).2 + (g (f s).1).2 := hpos
        omega
      show P (g (f s).1).1
      rw [hg.same _ hzero]
      exact hf.shown s hfirst
    · exact hg.shown _ hsome

/-- No pass at all. -/
def unchanged (s : Str) : Str × Nat :=
  (s, 0)

theorem honest_unchanged : Honest P unchanged where
  same _ _ := rfl
  shown _ h := absurd h (Nat.lt_irrefl 0)

/-- The passes in their order. -/
def inTurn (passes : List (Str → Str × Nat)) : Str → Str × Nat :=
  passes.foldl andThen unchanged

theorem Honest.inTurn {passes : List (Str → Str × Nat)} (h : ∀ f ∈ passes, Honest P f) :
    Honest P (inTurn passes) := by
  have hfold (first : Str → Str × Nat) (hfirst : Honest P first) :
      Honest P (passes.foldl Backtrack.andThen first) := by
    induction passes generalizing first with
    | nil => exact hfirst
    | cons f passes ih =>
      rw [List.forall_mem_cons] at h
      exact ih h.2 _ (hfirst.andThen h.1)
  exact hfold unchanged honest_unchanged

end HomelabMcp.Backtrack
