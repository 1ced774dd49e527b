import Mathlib

set_option autoImplicit false

/-! A computation that keeps the state it has reached when it fails, as a Rust method
on `&mut self` does. -/

namespace EStateM
variable {ε σ α β : Type} {x : EStateM ε σ α} {s t : σ}

@[simp] theorem bind_eq_ok {f : α → EStateM ε σ β} {b : β} :
    (x >>= f) s = .ok b t ↔ ∃ a u, x s = .ok a u ∧ f a u = .ok b t := by
  change EStateM.bind x f s = _ ↔ _
  unfold EStateM.bind
  cases hx : x s with
  | ok a u => simp
  | error e u => simp

variable {a : α}

@[simp] theorem map_eq_ok {f : α → β} {b : β} : (f <$> x) s = .ok b t ↔ ∃ a, b = f a ∧ x s = .ok a t := by
  change EStateM.map f x s = _ ↔ _
  unfold EStateM.map
  cases hx : x s with
  | ok a u => simp [eq_comm]
  | error e u => simp

@[simp] theorem pure_eq_ok {b : α} : (pure a : EStateM ε σ α) s = .ok b t ↔ b = a ∧ t = s := by
  change Result.ok a s = _ ↔ _
  simp [eq_comm]

@[simp] theorem get_eq_ok {u : σ} : (get : EStateM ε σ σ) s = .ok u t ↔ u = s ∧ t = s := by
  change Result.ok s s = _ ↔ _
  simp [eq_comm]

@[simp] theorem modify_eq_ok {f : σ → σ} {u : PUnit} :
    (modify f : EStateM ε σ PUnit) s = .ok u t ↔ t = f s := by
  change Result.ok PUnit.unit (f s) = _ ↔ _
  simp [eq_comm]

def getOrThrow (e : ε) : Option α → EStateM ε σ α
  | some a => pure a
  | none => throw e

@[simp] theorem getOrThrow_eq_ok {e : ε} {o : Option α} :
    getOrThrow e o s = .ok a t ↔ o = some a ∧ t = s := by
  cases o with
  | none =>
    change Result.error e s = _ ↔ _
    simp
  | some b => simp [getOrThrow,eq_comm]

def guardOrThrow (p : Prop) [Decidable p] (e : ε) : EStateM ε σ PUnit :=
  if p then pure ⟨⟩ else throw e

@[simp] theorem guardOrThrow_eq_ok {p : Prop} [Decidable p] {e : ε} {a : PUnit} :
    guardOrThrow p e s = .ok a t ↔ p ∧ t = s := by
  unfold guardOrThrow
  split
  · rename_i h
    simp [h]
  · rename_i h
    change Result.error e s = _ ↔ _
    simp [h]

/-- Run a computation on a part of the state. -/
def zoom {τ : Type} (read : σ → τ) (write : σ → τ → σ) (x : EStateM ε τ α) : EStateM ε σ α :=
  fun s => match x (read s) with
    | .ok a t => .ok a (write s t)
    | .error e t => .error e (write s t)

theorem zoom_eq_ok {τ : Type} {read : σ → τ} {write : σ → τ → σ} {x : EStateM ε τ α} {s' : σ} :
    zoom read write x s = .ok a s' ↔ ∃ t, x (read s) = .ok a t ∧ s' = write s t := by
  unfold zoom
  cases hx : x (read s) with
  | ok b t => simp [eq_comm]
  | error e t => simp

/-- Run a computation and put parts of the state back when it fails. -/
def restoring (restore : σ → σ → σ) (x : EStateM ε σ α) : EStateM ε σ α :=
  fun s => match x s with
    | .ok a t => .ok a t
    | .error e t => .error e (restore s t)

theorem restoring_eq_ok {restore : σ → σ → σ} : restoring restore x s = .ok a t ↔ x s = .ok a t := by
  unfold restoring
  cases hx : x s <;> simp

def finalState (x : EStateM ε σ α) (s : σ) : σ :=
  match x s with
  | .ok _ t => t
  | .error _ t => t

/-- Nothing the computation does on its way breaks the invariant. -/
def Preserves (inv : σ → Prop) (x : EStateM ε σ α) : Prop := ∀ s, inv s → inv (finalState x s)

section Preserving
variable {inv : σ → Prop}

theorem Preserves.bind {x : EStateM ε σ α} {f : α → EStateM ε σ β} (first : Preserves inv x)
    (next : ∀ a, Preserves inv (f a)) : Preserves inv (x >>= f) := by
  intro s holds
  have after := first s holds
  have step : finalState (x >>= f) s = match x s with
      | .ok a t => finalState (f a) t
      | .error _ t => t := by
    change finalState (EStateM.bind x f) s = _
    unfold finalState EStateM.bind
    cases x s <;> rfl
  rw [step]
  unfold finalState at after
  cases ran : x s with
  | ok a t =>
    rw [ran] at after
    exact next a t after
  | error e t =>
    rw [ran] at after
    exact after

theorem preserves_pure (a : α) : Preserves inv (pure a : EStateM ε σ α) := fun _ => id

theorem preserves_get : Preserves inv (get : EStateM ε σ σ) := fun _ => id

theorem preserves_modify {f : σ → σ} (keeps : ∀ s, inv s → inv (f s)) :
    Preserves inv (modify f : EStateM ε σ PUnit) := fun s holds => keeps s holds

theorem preserves_getOrThrow (e : ε) (o : Option α) : Preserves inv (getOrThrow e o : EStateM ε σ α) := by
  cases o with
  | none => exact fun _ => id
  | some a => exact preserves_pure a

theorem preserves_guardOrThrow (p : Prop) [Decidable p] (e : ε) :
    Preserves inv (guardOrThrow p e : EStateM ε σ PUnit) := by
  unfold guardOrThrow
  split
  · exact preserves_pure _
  · exact fun _ => id

theorem preserves_zoom {τ : Type} {read : σ → τ} {write : σ → τ → σ} (keeps : ∀ s t, inv s → inv (write s t))
    (x : EStateM ε τ α) : Preserves inv (zoom read write x) := by
  intro s holds
  unfold finalState zoom
  cases x (read s) with
  | ok a t => exact keeps s t holds
  | error e t => exact keeps s t holds

theorem restoring_eq_error {restore : σ → σ → σ} {x : EStateM ε σ α} {s t : σ} {e : ε}
    (keeps : Preserves (fun t => restore s t = s) x) (self : restore s s = s)
    (failed : restoring restore x s = .error e t) : t = s := by
  have after := keeps s self
  unfold finalState at after
  unfold restoring at failed
  cases ran : x s with
  | ok a u =>
    rw [ran] at failed
    cases failed
  | error e' u =>
    rw [ran] at failed after
    cases failed
    exact after

end Preserving

def outcome (x : EStateM ε σ α) (s : σ) : Except ε (α × σ) :=
  match x s with
  | .ok a t => .ok (a,t)
  | .error e _ => .error e

theorem outcome_eq_ok {r : α × σ} : outcome x s = .ok r ↔ x s = .ok r.1 r.2 := by
  unfold outcome
  cases hx : x s with
  | ok a t => simp [Prod.ext_iff]
  | error e t => simp

theorem except_bind_eq_ok {x : Except ε α} {f : α → Except ε β} {b : β} :
    (x >>= f) = .ok b ↔ ∃ a, x = .ok a ∧ f a = .ok b := by
  cases x with
  | ok a => simp [bind,Except.bind]
  | error e => simp [bind,Except.bind]

theorem except_pure_eq_ok {b : α} : (pure a : Except ε α) = .ok b ↔ b = a := by
  simp [pure,Except.pure,eq_comm]

end EStateM
