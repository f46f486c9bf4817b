import Mathlib.Algebra.BigOperators.Group.List.Basic
import Mathlib.Algebra.Order.Monoid.Canonical.Defs

/-!
Runs of a machine that answers each input and may stop: the trace of answers and
states, conditions that hold at every step, and agreement of two traces from
agreement of single steps.
-/

namespace Traces

variable {Input Answer Answer' State State' Stop : Type}
variable {step : Input → State → Except Stop (Answer × State)} {inputs : List Input} {state : State}
variable {agree : Answer × State → Answer' × State' → Prop} {before after : List (Answer × State)}
  {outcome : Answer × State}

def trace (step : Input → State → Except Stop (Answer × State)) :
    List Input → State → List (Answer × State) × Option Stop
  | [], _ => ([], none)
  | input :: inputs, state =>
    match step input state with
    | .error stop => ([], some stop)
    | .ok (answer, next) =>
      let rest := trace step inputs next
      ((answer, next) :: rest.1, rest.2)

attribute [grind =] trace

/-- Every step that is taken is allowed in the state before it. -/
def Throughout (step : Input → State → Except Stop (Answer × State))
    (allowed : Input → State → Prop) : List Input → State → Prop
  | [], _ => True
  | input :: inputs, state =>
    allowed input state ∧ ∀ answer next, step input state = .ok (answer, next) → Throughout step allowed inputs next

inductive OutcomesAgree (agree : Answer × State → Answer' × State' → Prop) :
    Except Stop (Answer × State) → Except Stop (Answer' × State') → Prop
  | stopped (stop : Stop) : OutcomesAgree agree (.error stop) (.error stop)
  | went {left : Answer × State} {right : Answer' × State'} (agrees : agree left right) :
      OutcomesAgree agree (.ok left) (.ok right)

structure TracesAgree (agree : Answer × State → Answer' × State' → Prop)
    (left : List (Answer × State) × Option Stop) (right : List (Answer' × State') × Option Stop) :
    Prop where
  steps : List.Forall₂ agree left.1 right.1
  stop : left.2 = right.2

theorem tracesAgree_of_steps {step' : Input → State' → Except Stop (Answer' × State')}
    {allowed : Input → State → Prop} {related : State → State' → Prop}
    (keeps : ∀ left right, agree left right → related left.2 right.2)
    (steps : ∀ input ∈ inputs, ∀ state state', related state state' →
      allowed input state → OutcomesAgree agree (step input state) (step' input state'))
    {state' : State'} (start : related state state')
    (throughout : Throughout step allowed inputs state) :
    TracesAgree agree (trace step inputs state) (trace step' inputs state') := by
  induction inputs generalizing state state' with
  | nil => exact ⟨.nil, rfl⟩
  | cons input inputs ih =>
    obtain ⟨here, later⟩ := throughout
    have outcome := steps input (.head _) state state' start here
    simp only [trace]
    generalize left : step input state = stepped at outcome later
    generalize step' input state' = stepped' at outcome
    cases outcome with
    | stopped stop => exact ⟨.nil, rfl⟩
    | went agrees =>
      have rest := ih (fun input member => steps input (.tail _ member)) (keeps _ _ agrees) (later _ _ rfl)
      exact ⟨.cons agrees rest.steps, rest.stop⟩

theorem trace_stop_ne {stop : Stop} (never : ∀ input state, step input state ≠ .error stop)
    (inputs : List Input) (state : State) : (trace step inputs state).2 ≠ some stop := by
  induction inputs generalizing state with
  | nil => exact nofun
  | cons input inputs ih =>
    have here := never input state
    simp only [trace]
    generalize step input state = stepped at here
    cases stepped with
    | error other =>
      intro same
      exact here (congrArg Except.error (Option.some.inj same))
    | ok outcome => exact ih outcome.2

theorem trace_invariant {holds : State → Prop}
    (keeps : ∀ input state answer next, holds state → step input state = .ok (answer, next) →
      holds next) (start : holds state) :
    ∀ outcome ∈ (trace step inputs state).1, holds outcome.2 := by
  induction inputs generalizing state with
  | nil => exact nofun
  | cons input inputs ih =>
    have here := keeps input state
    intro outcome member
    simp only [trace] at member
    generalize step input state = stepped at here member
    cases stepped with
    | error stop => cases member
    | ok first =>
      have kept := here first.1 first.2 start rfl
      rcases List.mem_cons.mp member with rfl | later
      · exact kept
      · exact ih kept outcome later

theorem trace_accounts {M : Type} [AddCommMonoid M] [PartialOrder M] [IsOrderedAddMonoid M]
    [CanonicallyOrderedAdd M] {account : State → M} {back : Answer → M} {given : Input → M}
    (accounts : ∀ input ∈ inputs, ∀ state answer next, step input state = .ok (answer, next) →
      account next + back answer ≤ account state + given input)
    (split : (trace step inputs state).1 = before ++ outcome :: after) :
    account outcome.2 + ((before ++ [outcome]).map fun outcome => back outcome.1).sum ≤
      account state + (inputs.map given).sum := by
  induction inputs generalizing state before with
  | nil => simp [trace] at split
  | cons input inputs ih =>
    have here := accounts input (.head _) state
    simp only [trace] at split
    generalize step input state = stepped at here split
    cases stepped with
    | error stop => simp at split
    | ok first =>
      have now := here first.1 first.2 rfl
      rw [List.map_cons, List.sum_cons, ← add_assoc]
      cases before with
      | nil =>
        rw [List.nil_append, List.cons.injEq] at split
        rw [← split.1]
        simpa using le_add_right now
      | cons earlier before =>
        rw [List.cons_append, List.cons.injEq] at split
        obtain ⟨rfl, split⟩ := split
        have rest := ih (fun input member => accounts input (.tail _ member)) split
        have later := add_le_add_right rest (back first.1)
        have total := add_le_add_left now (inputs.map given).sum
        calc account outcome.2 + (back first.1 +
              ((before ++ [outcome]).map fun outcome => back outcome.1).sum)
            = back first.1 + (account outcome.2 + ((before ++ [outcome]).map fun outcome => back outcome.1).sum) := by
                rw [add_left_comm]
          _ ≤ back first.1 + (account first.2 + (inputs.map given).sum) := later
          _ = account first.2 + back first.1 + (inputs.map given).sum := by
                rw [← add_assoc, add_comm (back first.1)]
          _ ≤ account state + given input + (inputs.map given).sum := total

theorem TracesAgree.split {left : List (Answer × State) × Option Stop}
    {right : List (Answer' × State') × Option Stop} (traces : TracesAgree agree left right)
    (split : left.1 = before ++ outcome :: after) :
    ∃ before' outcome' after', right.1 = before' ++ outcome' :: after' ∧
      List.Forall₂ agree before before' ∧ agree outcome outcome' := by
  have steps := traces.steps
  rw [split] at steps
  generalize right.1 = others at steps
  clear split
  induction before generalizing others with
  | nil =>
    obtain ⟨outcome', after', agrees, -, rfl⟩ := List.forall₂_cons_left_iff.mp steps
    exact ⟨[], outcome', after', rfl, .nil, agrees⟩
  | cons first before ih =>
    obtain ⟨first', rest, agrees, later, rfl⟩ := List.forall₂_cons_left_iff.mp steps
    obtain ⟨before', outcome', after', rfl, earlier, here⟩ := ih rest later
    exact ⟨first' :: before', outcome', after', rfl, .cons agrees earlier, here⟩

end Traces
