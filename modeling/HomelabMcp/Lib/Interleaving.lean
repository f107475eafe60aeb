import Mathlib.Logic.Function.Basic
import Mathlib.Logic.Relation
import HomelabMcp.Lib.Program

/-!
# Programs side by side

Several programs run against one shared state. A step is one call of one of them: the
state says what the call may be answered, and where it then is.

- `monitored`: a program that meets its monitor alone still meets it in any
  interleaving.
- `invariant`: what each call keeps that the monitors allow holds in every state that
  is reached.
- `reachable_play`: a schedule of a deterministic state is one of the interleavings.
-/

namespace HomelabMcp.Program

variable {ι κ : Type} {ρ : κ → Type} {ε α σ τ : Type} [DecidableEq ι]

/-- What the shared state may answer the call of a program, and where it then is. -/
abbrev Answering (ι κ : Type) (ρ : κ → Type) (σ : Type) :=
  σ → ι → (c : κ) → ρ c → σ → Prop

structure SideBySide (ι κ : Type) (ρ : κ → Type) (ε α σ : Type) where
  shared : σ
  /-- The calls each program has made, with their answers. -/
  log : ι → List (Event κ ρ)
  /-- What is left of each. -/
  rest : ι → Prog κ ρ ε α

namespace SideBySide

/-- Before any call. -/
def start (shared : σ) (programs : ι → Prog κ ρ ε α) : SideBySide ι κ ρ ε α σ :=
  ⟨shared, fun _ => [], programs⟩

/-- Program `i` has had its call answered. -/
def advance (S : SideBySide ι κ ρ ε α σ) (i : ι) (c : κ) (r : ρ c) (next : Prog κ ρ ε α)
    (shared : σ) : SideBySide ι κ ρ ε α σ where
  shared := shared
  log := Function.update S.log i (S.log i ++ [⟨c, r⟩])
  rest := Function.update S.rest i next

inductive Step (answers : Answering ι κ ρ σ) (S : SideBySide ι κ ρ ε α σ) :
    SideBySide ι κ ρ ε α σ → Prop
  | call (i : ι) (c : κ) (next : ρ c → Prog κ ρ ε α) (r : ρ c) (shared : σ)
      (hrest : S.rest i = .call c next) (hanswer : answers S.shared i c r shared) :
      Step answers S (S.advance i c r (next r) shared)

/-- The states that some interleaving reaches. -/
def Reachable (answers : Answering ι κ ρ σ) (S₀ S : SideBySide ι κ ρ ε α σ) : Prop :=
  Relation.ReflTransGen (Step answers) S₀ S

variable {answers : Answering ι κ ρ σ} {S S₀ : SideBySide ι κ ρ ε α σ}
  {M : ι → Monitor κ ρ τ} {first : ι → τ}

/-- The states of the monitors. -/
def watched (M : ι → Monitor κ ρ τ) (first : ι → τ) (S : SideBySide ι κ ρ ε α σ) : ι → τ :=
  fun i => (M i).after (first i) (S.log i)

theorem watched_advance (i : ι) (c : κ) (r : ρ c) (next : Prog κ ρ ε α) (shared : σ) :
    watched M first (S.advance i c r next shared) =
      Function.update (watched M first S) i ((M i).next (watched M first S i) c r) := by
  funext j
  by_cases hj : j = i
  · subst hj
    rw [Function.update_self]
    show (M j).after (first j) (Function.update S.log j _ j) = _
    rw [Function.update_self]
    exact List.foldl_append
  · rw [Function.update_of_ne hj]
    show (M j).after (first j) (Function.update S.log i _ j) = _
    rw [Function.update_of_ne hj]
    rfl

/-- The programs meet their monitors, from where those are. -/
def Monitored (M : ι → Monitor κ ρ τ) (first : ι → τ) (S : SideBySide ι κ ρ ε α σ) : Prop :=
  ∀ i, (M i).Meets (fun _ _ => True) (watched M first S i) (S.rest i)

theorem Monitored.step {S' : SideBySide ι κ ρ ε α σ} (h : Monitored M first S)
    (hstep : Step answers S S') : Monitored M first S' := by
  cases hstep with
  | call i c next r shared hrest hanswer =>
    intro j
    rw [watched_advance]
    by_cases hj : j = i
    · subst hj
      have hmeets := h j
      rw [hrest] at hmeets
      rw [Function.update_self]
      show (M j).Meets _ _ (Function.update S.rest j (next r) j)
      rw [Function.update_self]
      exact hmeets.2 r
    · rw [Function.update_of_ne hj]
      show (M j).Meets _ _ (Function.update S.rest i (next r) j)
      rw [Function.update_of_ne hj]
      exact h j

/-- What the others do does not make a program leave its monitor. -/
theorem monitored (hstart : Monitored M first S₀) (h : Reachable answers S₀ S) :
    Monitored M first S := by
  induction h with
  | refl => exact hstart
  | tail _ hstep ih => exact ih.step hstep

/-- What holds of the shared state and the monitors at the start, and is kept by every
call that a monitor allows, holds in every state that is reached. -/
theorem invariant {I : σ → (ι → τ) → Prop} (hstart : Monitored M first S₀)
    (hfirst : I S₀.shared (watched M first S₀))
    (hkeep : ∀ s t i c r s', I s t → (M i).allowed (t i) c → answers s i c r s' →
      I s' (Function.update t i ((M i).next (t i) c r)))
    (h : Reachable answers S₀ S) : I S.shared (watched M first S) := by
  induction h with
  | refl => exact hfirst
  | tail hreach hstep ih =>
    have hmonitored := monitored hstart hreach
    cases hstep with
    | call i c next r shared hrest hanswer =>
      rw [watched_advance]
      have hmeets := hmonitored i
      rw [hrest] at hmeets
      exact hkeep _ _ i c r _ ih hmeets.1 hanswer

/-! ## Schedules -/

/-- The call that a program makes next. -/
def pending : Prog κ ρ ε α → Option κ
  | .call c _ => some c
  | _ => none

omit [DecidableEq ι] in
/-- A program that meets its monitor makes a call next that is allowed. -/
theorem Monitored.allowed (h : Monitored M first S) {i : ι} {c : κ}
    (hpending : pending (S.rest i) = some c) : (M i).allowed (watched M first S i) c := by
  have hmeets := h i
  cases hrest : S.rest i with
  | call c' next =>
    rw [hrest] at hpending hmeets
    cases hpending
    exact hmeets.1
  | done | raise | unfinished =>
    rw [hrest] at hpending
    cases hpending

/-- One step of program `i` against a state that has one answer to each call. -/
def stepBy (answer : σ → (c : κ) → ρ c × σ) (S : SideBySide ι κ ρ ε α σ) (i : ι) :
    SideBySide ι κ ρ ε α σ :=
  match S.rest i with
  | .call c next =>
    S.advance i c (answer S.shared c).1 (next (answer S.shared c).1) (answer S.shared c).2
  | _ => S

/-- Whose turn it is, step by step. -/
def play (answer : σ → (c : κ) → ρ c × σ) (S : SideBySide ι κ ρ ε α σ) (schedule : List ι) :
    SideBySide ι κ ρ ε α σ :=
  schedule.foldl (stepBy answer) S

theorem reachable_play {answer : σ → (c : κ) → ρ c × σ}
    (hanswer : ∀ s i c, answers s i c (answer s c).1 (answer s c).2) (schedule : List ι) :
    Reachable answers S (play answer S schedule) := by
  induction schedule generalizing S with
  | nil => exact .refl
  | cons i schedule ih =>
    have hstep : Reachable answers S (stepBy answer S i) := by
      unfold stepBy
      split
      · next c next hrest =>
        exact .single (.call i c next _ _ hrest (hanswer S.shared i c))
      · exact .refl
    exact Relation.ReflTransGen.trans hstep ih

end SideBySide

end HomelabMcp.Program
