/-!
Computations that can fail and whose state survives the failure: those that
leave the state as they found it, what they return when sequenced, and bracketed
ones that change the state on entry and undo it on exit.
-/

namespace Surviving

variable {σ ε α β : Type}

abbrev Action (σ ε α : Type) := ExceptT ε (StateM σ) α

def Action.result (action : Action σ ε α) (state : σ) : Except ε α := (action.run.run state).1

def Action.after (action : Action σ ε α) (state : σ) : σ := (action.run.run state).2

def fromExcept (value : Except ε α) : Action σ ε α := fun state => (value, state)

def bracket (enter leave : σ → σ) (action : Action σ ε α) : Action σ ε α := fun state =>
  (action.result (enter state), leave (action.after (enter state)))

def Restores (action : Action σ ε α) : Prop := ∀ state, action.after state = state

theorem restores_pure (value : α) : Restores (pure value : Action σ ε α) := fun _ => rfl

theorem restores_throw (error : ε) : Restores (throw error : Action σ ε α) := fun _ => rfl

theorem restores_fromExcept (value : Except ε α) : Restores (fromExcept value : Action σ ε α) :=
  fun _ => rfl

theorem restores_bind {first : Action σ ε α} {next : α → Action σ ε β} (before : Restores first)
    (later : ∀ value, Restores (next value)) : Restores (first >>= next) := by
  intro state
  have same := before state
  simp only [Action.after, ExceptT.run, StateT.run, bind, ExceptT.bind, ExceptT.mk, StateT.bind] at same ⊢
  generalize first state = outcome at same
  obtain ⟨result, reached⟩ := outcome
  subst same
  cases result with
  | error error => rfl
  | ok value => exact later value reached

theorem restores_bracket {enter leave : σ → σ} {action : Action σ ε α}
    (undoes : ∀ state, leave (enter state) = state) (restores : Restores action) :
    Restores (bracket enter leave action) := by
  intro state
  have same := restores (enter state)
  simp only [Action.after, ExceptT.run, StateT.run, bracket] at same ⊢
  rw [same, undoes]

theorem result_fromExcept (value : Except ε α) (state : σ) :
    (fromExcept value : Action σ ε α).result state = value := rfl

theorem result_bracket (enter leave : σ → σ) (action : Action σ ε α) (state : σ) :
    (bracket enter leave action).result state = action.result (enter state) := rfl

theorem result_bind_ok {first : Action σ ε α} {next : α → Action σ ε β}
    (restores : Restores first) {state : σ} {result : β}
    (returned : (first >>= next).result state = .ok result) :
    ∃ value, first.result state = .ok value ∧ (next value).result state = .ok result := by
  have same := restores state
  simp only [Action.after, Action.result, ExceptT.run, StateT.run, bind, ExceptT.bind, ExceptT.mk,
    StateT.bind] at same returned ⊢
  generalize first state = outcome at same returned
  obtain ⟨value, _⟩ := outcome
  subst same
  cases value with
  | error error => cases returned
  | ok value => exact ⟨value, rfl, returned⟩

theorem bind_eq_ok {first : Except ε α} {next : α → Except ε β} {result : β} :
    (first >>= next) = .ok result ↔ ∃ value, first = .ok value ∧ next value = .ok result := by
  cases first with
  | error error => simp [bind, Except.bind]
  | ok value => simp [bind, Except.bind]

theorem bind_bind_eq_ok {γ : Type} {first : Except ε α} {second : α → Except ε β}
    {next : α → β → Except ε γ} {result : γ} :
    (do let a ← first; let b ← second a; next a b) = .ok result ↔
      ∃ a, first = .ok a ∧ ∃ b, second a = .ok b ∧ next a b = .ok result := by
  simp [bind_eq_ok]

theorem map_eq_ok {value : Except ε α} {f : α → β} {result : β} :
    value.map f = .ok result ↔ ∃ inner, value = .ok inner ∧ f inner = result := by
  cases value with
  | error error => simp [Except.map]
  | ok value => simp [Except.map]

end Surviving
