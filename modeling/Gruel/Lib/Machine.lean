/-!
Deterministic machines: counted runs, halting, and the two facts that make a
run's result unique.
-/

namespace Machine

variable {State Result : Type}
variable {first second : State}

inductive Next (State Result : Type)
  | running (state : State)
  | halted (result : Result)

inductive Reaches (step : State → Next State Result) : Nat → State → State → Prop
  | refl (state : State) : Reaches step 0 state state
  | cons {count : Nat} {first second last : State} (stepped : step first = .running second)
      (rest : Reaches step count second last) : Reaches step (count + 1) first last

def Halts (step : State → Next State Result) (state : State) (result : Result) : Prop :=
  ∃ count last, Reaches step count state last ∧ step last = .halted result

variable {step : State → Next State Result}

theorem Reaches.single (stepped : step first = .running second) : Reaches step 1 first second :=
  .cons stepped (.refl second)

theorem Reaches.trans {firstCount secondCount : Nat} {third : State} (before : Reaches step firstCount first second)
    (after : Reaches step secondCount second third) :
    Reaches step (firstCount + secondCount) first third := by
  induction before with
  | refl state =>
    rw [Nat.zero_add]
    exact after
  | @cons count first second last stepped rest restTrans =>
    have joined := Reaches.cons stepped (restTrans after)
    rwa [Nat.add_right_comm] at joined

theorem Halts.of_reaches {count : Nat} {result : Result} (reaches : Reaches step count first second)
    (halts : Halts step second result) : Halts step first result := by
  obtain ⟨rest, last, reachesLast, stops⟩ := halts
  exact ⟨count + rest, last, reaches.trans reachesLast, stops⟩

theorem Halts.unique {state : State} {first second : Result} (haltsFirst : Halts step state first)
    (haltsSecond : Halts step state second) : first = second := by
  obtain ⟨_, _, firstReaches, firstStops⟩ := haltsFirst
  obtain ⟨secondCount, _, secondReaches, secondStops⟩ := haltsSecond
  induction firstReaches generalizing secondCount with
  | refl state =>
    cases secondReaches with
    | refl state =>
      rw [firstStops] at secondStops
      exact (Next.halted.inj secondStops)
    | cons stepped rest =>
      rw [firstStops] at stepped
      cases stepped
  | cons stepped rest restUnique =>
    cases secondReaches with
    | refl state =>
      rw [stepped] at secondStops
      cases secondStops
    | cons secondStepped secondRest =>
      rw [stepped] at secondStepped
      cases secondStepped
      exact restUnique firstStops _ secondRest

end Machine
