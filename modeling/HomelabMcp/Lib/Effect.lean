import Mathlib.Logic.Relation

/-!
# Computations that change a state and may fail

A computation in `EStateM` leaves a state behind whether it returns or throws:
`after`. What it yields is decided step by step along its binds, and a relation
that every step keeps is kept by the whole: `Keeps.bind`.
-/

namespace HomelabMcp.Effect

universe u

variable {ε σ α β : Type u}

/-- The state a computation leaves, whether it returns or throws. -/
def after (x : EStateM ε σ α) (s : σ) : σ :=
  match x s with
  | .ok _ t => t
  | .error _ t => t

/-- What a computation returns, if it does. -/
def returned (x : EStateM ε σ α) (s : σ) : Option α :=
  match x s with
  | .ok a _ => some a
  | .error _ _ => none

variable {x : EStateM ε σ α} {f : α → EStateM ε σ β} {s t : σ} {a : α} {b : β} {e : ε}

theorem after_of_ok (h : x s = .ok a t) : after x s = t := by
  unfold after
  rw [h]

theorem after_of_error (h : x s = .error e t) : after x s = t := by
  unfold after
  rw [h]

theorem returned_eq_some : returned x s = some a ↔ x s = .ok a (after x s) := by
  unfold returned after
  cases x s with
  | ok c t => simp
  | error e t => simp

theorem bind_of_ok (h : x s = .ok a t) : (x >>= f) s = f a t := by
  change EStateM.bind x f s = f a t
  unfold EStateM.bind
  rw [h]

theorem bind_of_error (h : x s = .error e t) : (x >>= f) s = .error e t := by
  change EStateM.bind x f s = .error e t
  unfold EStateM.bind
  rw [h]

/-- What comes after depends on what the first part gives only. -/
theorem bind_congr_left {y : EStateM ε σ α} (h : x s = y t) : (x >>= f) s = (y >>= f) t := by
  change EStateM.bind x f s = EStateM.bind y f t
  unfold EStateM.bind
  rw [h]

/-- A sequence that returns has returned at each step. -/
theorem bind_eq_ok (h : (x >>= f) s = .ok b t) : ∃ a r, x s = .ok a r ∧ f a r = .ok b t := by
  cases hx : x s with
  | ok a r => exact ⟨a, r, rfl, by rwa [bind_of_ok hx] at h⟩
  | error e r => rw [bind_of_error hx] at h; cases h

theorem pure_eq_ok {c : α} (h : (pure a : EStateM ε σ α) s = .ok c t) : a = c ∧ s = t := by
  change EStateM.Result.ok a s = .ok c t at h
  injection h with h₁ h₂
  exact ⟨h₁, h₂⟩

@[simp] theorem after_pure : after (pure a : EStateM ε σ α) s = s := rfl

theorem after_bind_of_ok (h : x s = .ok a t) : after (x >>= f) s = after (f a) t := by
  unfold after
  rw [bind_of_ok h]

theorem after_bind_of_error (h : x s = .error e t) : after (x >>= f) s = t :=
  after_of_error (bind_of_error h)

/-- What is returned last leaves the state as it is. -/
theorem after_bind_pure (g : α → β) : after (x >>= fun a => pure (g a)) s = after x s := by
  cases h : x s with
  | ok a t => rw [after_bind_of_ok h, after_pure, after_of_ok h]
  | error e t => rw [after_bind_of_error h, after_of_error h]

/-- Whatever happens, the state moves along `R`. -/
def Keeps (R : σ → σ → Prop) (x : EStateM ε σ α) : Prop :=
  ∀ s, R s (after x s)

theorem Keeps.pure {R : σ → σ → Prop} (hrefl : ∀ s, R s s) (a : α) :
    Keeps R (pure a : EStateM ε σ α) :=
  hrefl

theorem Keeps.mono {R R' : σ → σ → Prop} (h : Keeps R x) (himp : ∀ s t, R s t → R' s t) :
    Keeps R' x := fun s =>
  himp _ _ (h s)

theorem Keeps.bind {R : σ → σ → Prop} (htrans : ∀ s t r, R s t → R t r → R s r)
    (hx : Keeps R x) (hf : ∀ a, Keeps R (f a)) : Keeps R (x >>= f) := by
  intro s
  have hs := hx s
  cases h : x s with
  | ok a t =>
    rw [after_bind_of_ok h]
    rw [after_of_ok h] at hs
    exact htrans _ _ _ hs (hf a t)
  | error e t =>
    rw [after_bind_of_error h]
    rwa [after_of_error h] at hs

theorem Keeps.throw {R : σ → σ → Prop} (hrefl : ∀ s, R s s) (e : ε) :
    Keeps R (throw e : EStateM ε σ α) :=
  hrefl

theorem Keeps.tryCatch {R : σ → σ → Prop} (htrans : ∀ s t r, R s t → R t r → R s r)
    {handler : ε → EStateM ε σ α} (hx : Keeps R x) (hh : ∀ e, Keeps R (handler e)) :
    Keeps R (tryCatch x handler) := by
  intro s
  have hs := hx s
  unfold after at hs ⊢
  change R s (match EStateM.tryCatch x handler s with | .ok _ t => t | .error _ t => t)
  unfold EStateM.tryCatch
  cases h : x s with
  | ok a t =>
    rw [h] at hs
    exact hs
  | error e t =>
    rw [h] at hs
    exact htrans _ _ _ hs (hh e t)

end HomelabMcp.Effect
