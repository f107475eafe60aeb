import Mathlib.Logic.Basic
import Mathlib.Order.Basic

/-!
# Programs that call the outside

A program in `Prog κ ρ ε` makes calls of type `κ`; the outside answers a call `c`
with some `ρ c`, and the program goes on with the answer. It ends by returning or
by throwing, or it is cut off while it still polls. `run` plays a program against
one outside and gives the calls made, with their answers, and the outcome.

A `Monitor` follows a run from outside: a state that moves with each answered call,
and which calls it allows next.

- `Monitor.Meets`: the monitor holds whatever the outside answers. It is decided
  along the program, a rule for each way to build one: `meets_bind`, `meets_ask`,
  `meets_tryCatch`.
- `Monitor.Meets.run`: then it holds of each run.
- `Monitor.Meets.play`: an outside with a state of its own is one such outside. What the
  allowed calls keep, between the monitor's state and its own, holds where the program ends.
- `Leads`: what holds where a program ends that is played in such a world, by the same rules.
-/

namespace HomelabMcp.Program

variable {κ : Type} {ρ : κ → Type} {ε α β σ : Type}

inductive Prog (κ : Type) (ρ : κ → Type) (ε α : Type)
  | done (a : α)
  | raise (e : ε)
  /-- Still polling when the run is cut off. -/
  | unfinished
  | call (c : κ) (next : ρ c → Prog κ ρ ε α)

namespace Prog

def bind : Prog κ ρ ε α → (α → Prog κ ρ ε β) → Prog κ ρ ε β
  | .done a, f => f a
  | .raise e, _ => .raise e
  | .unfinished, _ => .unfinished
  | .call c next, f => .call c fun r => (next r).bind f

def tryCatch : Prog κ ρ ε α → (ε → Prog κ ρ ε α) → Prog κ ρ ε α
  | .done a, _ => .done a
  | .raise e, f => f e
  | .unfinished, _ => .unfinished
  | .call c next, f => .call c fun r => (next r).tryCatch f

instance : Monad (Prog κ ρ ε) where
  pure := .done
  bind := bind

instance : MonadExceptOf ε (Prog κ ρ ε) where
  throw := .raise
  tryCatch := tryCatch

end Prog

/-- One call. -/
def ask (c : κ) : Prog κ ρ ε (ρ c) :=
  .call c .done

/-- A call that may fail throws what the outside answers. -/
def orThrow : Except ε α → Prog κ ρ ε α
  | .ok a => .done a
  | .error e => .raise e

/-! ## Runs -/

inductive Outcome (ε α : Type)
  | returned (a : α)
  | thrown (e : ε)
  | unfinished
  deriving DecidableEq

/-- A call and its answer. -/
structure Event (κ : Type) (ρ : κ → Type) where
  call : κ
  answer : ρ call

/-- The run from the `n`-th call on: `w n c` is the answer to the `n`-th call. -/
def run (w : Nat → (c : κ) → ρ c) : Nat → Prog κ ρ ε α → List (Event κ ρ) × Outcome ε α
  | _, .done a => ([], .returned a)
  | _, .raise e => ([], .thrown e)
  | _, .unfinished => ([], .unfinished)
  | n, .call c next =>
    (⟨c, w n c⟩ :: (run w (n + 1) (next (w n c))).1, (run w (n + 1) (next (w n c))).2)

/-! ## Monitors -/

structure Monitor (κ : Type) (ρ : κ → Type) (σ : Type) where
  next : σ → (c : κ) → ρ c → σ
  allowed : σ → κ → Prop

namespace Monitor

variable (M : Monitor κ ρ σ)

/-- Whatever the outside answers, only allowed calls are made, and the outcome
meets the postcondition in the state that is then reached. -/
def Meets (post : σ → Outcome ε α → Prop) : σ → Prog κ ρ ε α → Prop
  | s, .done a => post s (.returned a)
  | s, .raise e => post s (.thrown e)
  | s, .unfinished => post s .unfinished
  | s, .call c k => M.allowed s c ∧ ∀ r, Meets post (M.next s c r) (k r)

/-- The state after some events. -/
def after (s : σ) (events : List (Event κ ρ)) : σ :=
  events.foldl (fun s e => M.next s e.call e.answer) s

/-- Each event's call was allowed when it was made. -/
def Allows : σ → List (Event κ ρ) → Prop
  | _, [] => True
  | s, e :: es => M.allowed s e.call ∧ Allows (M.next s e.call e.answer) es

variable {M} {post : σ → Outcome ε α → Prop} {s : σ}

theorem Meets.run {p : Prog κ ρ ε α} (h : M.Meets post s p) (w : Nat → (c : κ) → ρ c)
    (n : Nat) :
    M.Allows s (run w n p).1 ∧ post (M.after s (run w n p).1) (run w n p).2 := by
  induction p generalizing s n with
  | done a => exact ⟨trivial, h⟩
  | raise e => exact ⟨trivial, h⟩
  | unfinished => exact ⟨trivial, h⟩
  | call c next ih =>
    obtain ⟨hallows, hpost⟩ := ih (w n c) (h.2 (w n c)) (n + 1)
    exact ⟨⟨h.1, hallows⟩, hpost⟩

theorem Allows.of_mem {events : List (Event κ ρ)} (h : M.Allows s events) {e : Event κ ρ}
    (he : e ∈ events) : ∃ t, M.allowed t e.call := by
  induction events generalizing s with
  | nil => cases he
  | cons first events ih =>
    rcases List.mem_cons.mp he with rfl | he
    · exact ⟨s, h.1⟩
    · exact ih h.2 he

theorem Meets.mono {post' : σ → Outcome ε α → Prop} {p : Prog κ ρ ε α} (h : M.Meets post s p)
    (himp : ∀ t o, post t o → post' t o) : M.Meets post' s p := by
  induction p generalizing s with
  | done a => exact himp _ _ h
  | raise e => exact himp _ _ h
  | unfinished => exact himp _ _ h
  | call c next ih => exact ⟨h.1, fun r => ih r (h.2 r)⟩

/-- What the first part of a sequence has to establish. -/
def andThen (M : Monitor κ ρ σ) (f : α → Prog κ ρ ε β) (post : σ → Outcome ε β → Prop) :
    σ → Outcome ε α → Prop
  | s, .returned a => M.Meets post s (f a)
  | s, .thrown e => post s (.thrown e)
  | s, .unfinished => post s .unfinished

theorem meets_bind {post : σ → Outcome ε β → Prop} {p : Prog κ ρ ε α}
    {f : α → Prog κ ρ ε β} :
    M.Meets post s (p >>= f) ↔ M.Meets (M.andThen f post) s p := by
  show M.Meets post s (p.bind f) ↔ _
  induction p generalizing s with
  | done a => exact Iff.rfl
  | raise e => exact Iff.rfl
  | unfinished => exact Iff.rfl
  | call c next ih => exact and_congr_right fun _ => forall_congr' fun r => ih r

/-- What the body of a `try` has to establish. -/
def orElse (M : Monitor κ ρ σ) (f : ε → Prog κ ρ ε α) (post : σ → Outcome ε α → Prop) :
    σ → Outcome ε α → Prop
  | s, .returned a => post s (.returned a)
  | s, .thrown e => M.Meets post s (f e)
  | s, .unfinished => post s .unfinished

theorem meets_tryCatch {p : Prog κ ρ ε α} {f : ε → Prog κ ρ ε α} :
    M.Meets post s (tryCatch p f) ↔ M.Meets (M.orElse f post) s p := by
  show M.Meets post s (p.tryCatch f) ↔ _
  induction p generalizing s with
  | done a => exact Iff.rfl
  | raise e => exact Iff.rfl
  | unfinished => exact Iff.rfl
  | call c next ih => exact and_congr_right fun _ => forall_congr' fun r => ih r

@[simp] theorem meets_pure {a : α} :
    M.Meets post s (pure a : Prog κ ρ ε α) ↔ post s (.returned a) := Iff.rfl

@[simp] theorem meets_throw {e : ε} :
    M.Meets post s (throw e : Prog κ ρ ε α) ↔ post s (.thrown e) := Iff.rfl

theorem meets_ask {c : κ} {post : σ → Outcome ε (ρ c) → Prop} :
    M.Meets post s (ask c : Prog κ ρ ε (ρ c)) ↔
      M.allowed s c ∧ ∀ r, post (M.next s c r) (.returned r) := Iff.rfl

theorem meets_orThrow {r : Except ε α} :
    M.Meets post s (orThrow r : Prog κ ρ ε α) ↔
      (∀ a, r = .ok a → post s (.returned a)) ∧ ∀ e, r = .error e → post s (.thrown e) := by
  cases r with
  | ok a => simp [orThrow, Meets]
  | error e => simp [orThrow, Meets]

theorem meets_ite {c : Prop} [Decidable c] {p q : Prog κ ρ ε α} :
    M.Meets post s (if c then p else q) ↔ (c → M.Meets post s p) ∧ (¬c → M.Meets post s q) := by
  by_cases h : c <;> simp [h]

/-! ## Programs that a monitor takes no notice of -/

/-- The program does nothing that the monitor takes notice of; where `cut` fails, it
is not cut off either. -/
def Ignores (M : Monitor κ ρ σ) (cut : Prop) (s : σ) (p : Prog κ ρ ε α) : Prop :=
  M.Meets (fun t o => t = s ∧ (o = .unfinished → cut)) s p

variable {cut : Prop}

theorem Ignores.meets {p : Prog κ ρ ε α} (hp : M.Ignores cut s p)
    (hpost : ∀ o, (o = .unfinished → cut) → post s o) : M.Meets post s p :=
  Meets.mono hp fun t o h => by
    obtain ⟨rfl, hended⟩ := h
    exact hpost o hended

/-- What comes after such a program starts where that started. -/
theorem Ignores.meets_bind {post : σ → Outcome ε β → Prop} {p : Prog κ ρ ε α}
    {f : α → Prog κ ρ ε β} (hp : M.Ignores cut s p) (hf : ∀ a, M.Meets post s (f a))
    (hthrown : ∀ e, post s (.thrown e)) (hcut : cut → post s .unfinished) :
    M.Meets post s (p >>= f) := by
  refine Monitor.meets_bind.mpr (hp.meets fun o hended => ?_)
  cases o with
  | returned a => exact hf a
  | thrown e => exact hthrown e
  | unfinished => exact hcut (hended rfl)

theorem ignores_pure (a : α) : M.Ignores cut s (pure a : Prog κ ρ ε α) :=
  ⟨rfl, nofun⟩

theorem ignores_throw (e : ε) : M.Ignores cut s (throw e : Prog κ ρ ε α) :=
  ⟨rfl, nofun⟩

theorem ignores_orThrow (r : Except ε α) : M.Ignores cut s (orThrow r : Prog κ ρ ε α) :=
  meets_orThrow.mpr ⟨fun _ _ => ⟨rfl, nofun⟩, fun _ _ => ⟨rfl, nofun⟩⟩

theorem ignores_ask {c : κ} (hallowed : M.allowed s c) (hnext : ∀ r, M.next s c r = s) :
    M.Ignores cut s (ask c : Prog κ ρ ε (ρ c)) :=
  meets_ask.mpr ⟨hallowed, fun r => ⟨hnext r, nofun⟩⟩

theorem ignores_ite {c : Prop} [Decidable c] {p q : Prog κ ρ ε α} (hp : M.Ignores cut s p)
    (hq : M.Ignores cut s q) : M.Ignores cut s (if c then p else q) :=
  meets_ite.mpr ⟨fun _ => hp, fun _ => hq⟩

theorem Ignores.bind {p : Prog κ ρ ε α} {f : α → Prog κ ρ ε β} (hp : M.Ignores cut s p)
    (hf : ∀ a, M.Ignores cut s (f a)) : M.Ignores cut s (p >>= f) :=
  hp.meets_bind hf (fun _ => ⟨rfl, nofun⟩) fun hcut => ⟨rfl, fun _ => hcut⟩

end Monitor

/-! ## An outside with a state -/

variable {ω : Type}

/-- The program is played in a world that answers each call and changes with it. -/
def play (answer : ω → (c : κ) → ρ c × ω) : ω → Prog κ ρ ε α → Outcome ε α × ω
  | w, .done a => (.returned a, w)
  | w, .raise e => (.thrown e, w)
  | w, .unfinished => (.unfinished, w)
  | w, .call c next => play answer (answer w c).2 (next (answer w c).1)

section
variable {answer : ω → (c : κ) → ρ c × ω} {w w' : ω} {p : Prog κ ρ ε α} {f : α → Prog κ ρ ε β}

theorem play_ask_bind {c : κ} {f : ρ c → Prog κ ρ ε β} :
    play answer w (ask c >>= f) = play answer (answer w c).2 (f (answer w c).1) := rfl

theorem play_bind_returned {a : α} (h : play answer w p = (.returned a, w')) :
    play answer w (p >>= f) = play answer w' (f a) := by
  show play answer w (p.bind f) = _
  induction p generalizing w with
  | done b =>
    cases h
    rfl
  | raise e => cases h
  | unfinished => cases h
  | call c next ih => exact ih _ h

theorem play_bind_thrown {e : ε} (h : play answer w p = (.thrown e, w')) :
    play answer w (p >>= f) = (.thrown e, w') := by
  show play answer w (p.bind f) = _
  induction p generalizing w with
  | done b => cases h
  | raise e =>
    cases h
    rfl
  | unfinished => cases h
  | call c next ih => exact ih _ h

/-- What returns in the end has returned at each step. -/
theorem returned_of_play_bind {b : β} (h : (play answer w (p >>= f)).1 = .returned b) :
    ∃ a w', play answer w p = (.returned a, w') ∧ (play answer w' (f a)).1 = .returned b := by
  change (play answer w (p.bind f)).1 = _ at h
  induction p generalizing w with
  | done a => exact ⟨a, w, rfl, h⟩
  | raise e => cases h
  | unfinished => cases h
  | call c next ih => exact ih _ h

theorem play_tryCatch_returned {a : α} {handle : ε → Prog κ ρ ε α}
    (h : play answer w p = (.returned a, w')) :
    play answer w (tryCatch p handle) = (.returned a, w') := by
  show play answer w (p.tryCatch handle) = _
  induction p generalizing w with
  | done b =>
    cases h
    rfl
  | raise e => cases h
  | unfinished => cases h
  | call c next ih => exact ih _ h

end

/-- What each allowed call keeps between the state of the monitor and that of the world
holds where the program ends. -/
theorem Monitor.Meets.play {M : Monitor κ ρ σ} {post : σ → Outcome ε α → Prop} {s : σ}
    {p : Prog κ ρ ε α} (h : M.Meets post s p) {answer : ω → (c : κ) → ρ c × ω}
    (inv : σ → ω → Prop) (hstep : ∀ s w c, M.allowed s c → inv s w →
      inv (M.next s c (answer w c).1) (answer w c).2)
    {w : ω} (hw : inv s w) :
    ∃ t, inv t (Program.play answer w p).2 ∧ post t (Program.play answer w p).1 := by
  induction p generalizing s w with
  | done a => exact ⟨s, hw, h⟩
  | raise e => exact ⟨s, hw, h⟩
  | unfinished => exact ⟨s, hw, h⟩
  | call c next ih => exact ih _ (h.2 _) (hstep s w c h.1 hw)

/-! ### Where a program leads a world -/

/-- Played in a world, the program ends with a world and an outcome that meet the
postcondition. -/
def Leads (answer : ω → (c : κ) → ρ c × ω) (post : ω → Outcome ε α → Prop) :
    ω → Prog κ ρ ε α → Prop
  | w, .done a => post w (.returned a)
  | w, .raise e => post w (.thrown e)
  | w, .unfinished => post w .unfinished
  | w, .call c next => Leads answer post (answer w c).2 (next (answer w c).1)

section
variable {answer : ω → (c : κ) → ρ c × ω} {post : ω → Outcome ε α → Prop} {w : ω}

theorem leads_iff {p : Prog κ ρ ε α} :
    Leads answer post w p ↔ post (play answer w p).2 (play answer w p).1 := by
  induction p generalizing w with
  | done a => exact Iff.rfl
  | raise e => exact Iff.rfl
  | unfinished => exact Iff.rfl
  | call c next ih => exact ih (answer w c).1

theorem Leads.mono {post' : ω → Outcome ε α → Prop} {p : Prog κ ρ ε α}
    (h : Leads answer post w p) (himp : ∀ w' o, post w' o → post' w' o) :
    Leads answer post' w p :=
  leads_iff.mpr (himp _ _ (leads_iff.mp h))

/-- What the first part of a sequence has to establish. -/
def leadsOn (answer : ω → (c : κ) → ρ c × ω) (f : α → Prog κ ρ ε β)
    (post : ω → Outcome ε β → Prop) : ω → Outcome ε α → Prop
  | w, .returned a => Leads answer post w (f a)
  | w, .thrown e => post w (.thrown e)
  | w, .unfinished => post w .unfinished

theorem leads_bind {post : ω → Outcome ε β → Prop} {p : Prog κ ρ ε α} {f : α → Prog κ ρ ε β} :
    Leads answer post w (p >>= f) ↔ Leads answer (leadsOn answer f post) w p := by
  show Leads answer post w (p.bind f) ↔ _
  induction p generalizing w with
  | done a => exact Iff.rfl
  | raise e => exact Iff.rfl
  | unfinished => exact Iff.rfl
  | call c next ih => exact ih (answer w c).1

/-- What the body of a `try` has to establish. -/
def leadsOrElse (answer : ω → (c : κ) → ρ c × ω) (f : ε → Prog κ ρ ε α)
    (post : ω → Outcome ε α → Prop) : ω → Outcome ε α → Prop
  | w, .returned a => post w (.returned a)
  | w, .thrown e => Leads answer post w (f e)
  | w, .unfinished => post w .unfinished

theorem leads_tryCatch {p : Prog κ ρ ε α} {f : ε → Prog κ ρ ε α} :
    Leads answer post w (tryCatch p f) ↔ Leads answer (leadsOrElse answer f post) w p := by
  show Leads answer post w (p.tryCatch f) ↔ _
  induction p generalizing w with
  | done a => exact Iff.rfl
  | raise e => exact Iff.rfl
  | unfinished => exact Iff.rfl
  | call c next ih => exact ih (answer w c).1

end

end HomelabMcp.Program
