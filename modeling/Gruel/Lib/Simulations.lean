import Mathlib.Tactic

/-!
Computations on a state that end with a value or an exit, and the simulation of
one by another that keeps further slots beside the state.
-/

namespace Simulations

def Action (State Exit α : Type) := State → Except Exit α × State

variable {State Exit α β γ δ : Type}

namespace Action

protected def pure (value : α) : Action State Exit α := fun state => (.ok value, state)

def throw (exit : Exit) : Action State Exit α := fun state => (.error exit, state)

def resume (first : Action State Exit α) (next : Except Exit α → Action State Exit β) :
    Action State Exit β := fun state => next (first state).1 (first state).2

protected def bind (first : Action State Exit α) (next : α → Action State Exit β) : Action State Exit β :=
  resume first fun
    | .ok value => next value
    | .error exit => throw exit

instance : Monad (Action State Exit) where
  pure := Action.pure
  bind := Action.bind

theorem bind_eq (first : Action State Exit α) (next : α → Action State Exit β) : first >>= next = resume first fun
      | .ok value => next value
      | .error exit => throw exit := rfl

theorem resume_bind (first : Action State Exit α) (next : α → Action State Exit β)
    (last : Except Exit β → Action State Exit γ) :
    (first >>= next).resume last = first.resume fun
      | .ok value => (next value).resume last
      | .error exit => last (.error exit) := by
  funext state
  rw [bind_eq]
  simp only [resume]
  cases (first state).1 <;> rfl

protected theorem bind_assoc (run : Action State Exit α) (next : α → Action State Exit β)
    (last : β → Action State Exit γ) :
    run >>= next >>= last = run >>= fun value => next value >>= last := by
  rw [bind_eq, resume_bind, bind_eq]
  congr 1

protected theorem bind_pure (run : Action State Exit α) : (run >>= fun value => pure value) = run := by
  funext state
  rw [bind_eq, resume]
  generalize run state = after
  rcases after with ⟨outcome, _⟩
  cases outcome <;> rfl

instance : LawfulMonad (Action State Exit) :=
  LawfulMonad.mk' _ Action.bind_pure (fun _ _ => rfl) Action.bind_assoc

def ask (question : State → α) : Action State Exit α := fun state => (.ok (question state), state)

def modify (change : State → State) : Action State Exit Unit := fun state => (.ok (), change state)

def inOrder : List (Action State Exit α) → Action State Exit (List α)
  | [] => pure []
  | first :: rest => do
      let value ← first
      let values ← inOrder rest
      return value :: values

inductive Handling
  | again
  | leave
  | pass

section Loops

variable (handles : Exit → Handling) (spent : Exit)

def handled (again : Action State Exit Unit) (exit : Exit) : Handling → Action State Exit Unit
  | .again => again
  | .leave => pure ()
  | .pass => throw exit

def afterRound (again : Action State Exit Unit) : Except Exit α → Action State Exit Unit
  | .ok _ => again
  | .error exit => handled again exit (handles exit)

def whileRounds (test : Action State Exit Bool) (body : Action State Exit α) : Nat → Action State Exit Unit
  | 0 => throw spent
  | limit + 1 => do
      if ← test then resume body (afterRound handles (whileRounds test body limit))
      else pure ()

def countedRounds (test : α → Action State Exit Bool) (advance : α → Action State Exit α)
    (body : Action State Exit β) : Nat → α → Action State Exit Unit
  | 0, _ => throw spent
  | limit + 1, counter => do
      if ← test counter then
        resume (advance counter) fun
          | .ok next => resume body (afterRound handles (countedRounds test advance body limit next))
          | .error exit =>
            afterRound handles (countedRounds test advance body limit counter) (.error exit : Except Exit β)
      else pure ()

end Loops

section Slots

variable {Index Cell : Type}

def beside (run : Action State Exit α) : Action (State × (Index → Cell)) Exit α := fun wide =>
  ((run wide.1).1, (run wide.1).2, wide.2)

def readSlot (index : Index) : Action (State × (Index → Cell)) Exit Cell := fun wide =>
  (.ok (wide.2 index), wide)

def writeSlot [DecidableEq Index] (index : Index) (cell : Cell) :
    Action (State × (Index → Cell)) Exit Unit := fun wide =>
  (.ok (), wide.1, Function.update wide.2 index cell)

end Slots

end Action

open Action

variable {Index Cell : Type} {touched larger : Set Index}

variable {next : α → Action State Exit γ}

section Simulation

variable {index : Index} {cell : Cell}

def Ends (values : α → β → (Index → Cell) → Prop) (exits : (Index → Cell) → Prop) :
    Except Exit α → Except Exit β → (Index → Cell) → Prop
  | .ok value, .ok other, slots => values value other slots
  | .error exit, .error other, slots => exit = other ∧ exits slots
  | _, _, _ => False

/-- From slots with `before`, `wide` changes the state as `narrow` does, no slots but those that are
touched, and ends like it. -/
def Simulates (touched : Set Index) (before : (Index → Cell) → Prop)
    (narrow : Action State Exit α) (wide : Action (State × (Index → Cell)) Exit β)
    (values : α → β → (Index → Cell) → Prop) (exits : (Index → Cell) → Prop) : Prop :=
  ∀ state slots, before slots → ∃ outcome slots', wide (state, slots) = (outcome, (narrow state).2, slots') ∧
      Ends values exits (narrow state).1 outcome slots' ∧
      ∀ index, index ∉ touched → slots' index = slots index

/-- Simulation whatever is in the slots. -/
abbrev Mirrors (touched : Set Index) (narrow : Action State Exit α)
    (wide : Action (State × (Index → Cell)) Exit α) : Prop :=
  Simulates touched (fun _ => True) narrow wide (fun value other _ => value = other) fun _ => True

variable {before stronger : (Index → Cell) → Prop} {exits weaker : (Index → Cell) → Prop}
  {narrow : Action State Exit α} {wide : Action (State × (Index → Cell)) Exit β}
  {values : α → β → (Index → Cell) → Prop}

theorem Ends.imp {looser : α → β → (Index → Cell) → Prop} {slots : Index → Cell}
    {outcome : Except Exit α} {other : Except Exit β} (ends : Ends values exits outcome other slots)
    (onValues : ∀ value other, values value other slots → looser value other slots)
    (onExits : exits slots → weaker slots) : Ends looser weaker outcome other slots := by
  cases outcome <;> cases other
  · exact ⟨ends.1, onExits ends.2⟩
  · exact ends
  · exact ends
  · exact onValues _ _ ends

theorem Ends.eq {outcome other : Except Exit α} {slots : Index → Cell}
    (ends : Ends (fun value other _ => value = other) exits outcome other slots) :
    other = outcome := by
  cases outcome <;> cases other
  · rw [ends.1]
  · exact ends.elim
  · exact ends.elim
  · exact congrArg Except.ok ends.symm

section

variable (simulates : Simulates touched before narrow wide values exits)
include simulates

theorem Simulates.imp {looser : α → β → (Index → Cell) → Prop} (within : touched ⊆ larger)
    (onBefore : ∀ slots, stronger slots → before slots)
    (onValues : ∀ value other slots, values value other slots → looser value other slots)
    (onExits : ∀ slots, exits slots → weaker slots) :
    Simulates larger stronger narrow wide looser weaker := by
  intro state slots holds
  obtain ⟨outcome, slots', runs, ends, untouched⟩ := simulates state slots (onBefore slots holds)
  refine ⟨outcome, slots', runs, ends.imp (fun value other => onValues value other slots') (onExits slots'), ?_⟩
  intro index outside
  exact untouched index fun member => outside (within member)

theorem Simulates.mono (within : touched ⊆ larger) : Simulates larger before narrow wide values exits :=
  simulates.imp within (fun _ holds => holds) (fun _ _ _ holds => holds) fun _ holds => holds

theorem Simulates.frame (kept : (Index → Cell) → Prop)
    (stable : ∀ slots slots' : Index → Cell, (∀ index, index ∉ touched →
      slots' index = slots index) → kept slots → kept slots') :
    Simulates touched (fun slots => before slots ∧ kept slots) narrow wide
      (fun value other slots => values value other slots ∧ kept slots)
      fun slots => exits slots ∧ kept slots := by
  intro state slots holds
  obtain ⟨outcome, slots', runs, ends, untouched⟩ := simulates state slots holds.1
  have keeps := stable slots slots' untouched holds.2
  exact ⟨outcome, slots', runs, ends.imp (fun _ _ holds => ⟨holds, keeps⟩) (fun holds => ⟨holds, keeps⟩), untouched⟩

end

theorem simulates_pure {value : α} {other : β} (holds : ∀ slots, before slots → values value other slots) :
    Simulates touched before (pure value : Action State Exit α) (pure other) values exits :=
  fun _ slots start => ⟨.ok other, slots, rfl, holds slots start, fun _ _ => rfl⟩

theorem simulates_throw {exit : Exit} (holds : ∀ slots, before slots → exits slots) :
    Simulates touched before (throw exit : Action State Exit α)
      (throw exit : Action (State × (Index → Cell)) Exit β) values exits :=
  fun _ slots start => ⟨.error exit, slots, rfl, ⟨rfl, holds slots start⟩, fun _ _ => rfl⟩

theorem simulates_of_fact {fact : Prop} (simulates : fact → Simulates touched before narrow wide values exits) :
    Simulates touched (fun slots => fact ∧ before slots) narrow wide values exits :=
  fun state slots start => simulates start.1 state slots start.2

theorem simulates_beside {run : Action State Exit α} :
    Mirrors touched run (beside run : Action (State × (Index → Cell)) Exit α) := by
  intro state slots _
  refine ⟨(run state).1, slots, rfl, ?_, fun _ _ => rfl⟩
  cases (run state).1
  · exact ⟨rfl, trivial⟩
  · rfl

theorem simulates_readSlot {next : Cell → Action (State × (Index → Cell)) Exit β}
    (holds : ∀ slots, before slots → slots index = cell)
    (simulates : Simulates touched before narrow (next cell) values exits) :
    Simulates touched before narrow (readSlot index >>= next) values exits := by
  intro state slots start
  have reads : (readSlot index >>= next) (state, slots) = next (slots index) (state, slots) := rfl
  rw [reads, holds slots start]
  exact simulates state slots start

theorem simulates_reading (holds : ∀ slots, before slots → slots index = cell) :
    Simulates touched before (pure cell : Action State Exit Cell) (readSlot index)
      (fun value other _ => value = other) exits :=
  fun _ slots start => ⟨.ok (slots index), slots, rfl, (holds slots start).symm, fun _ _ => rfl⟩

theorem simulates_writeSlot [DecidableEq Index]
    {next : Unit → Action (State × (Index → Cell)) Exit β} (member : index ∈ touched)
    (simulates : Simulates touched stronger narrow (next ()) values exits)
    (holds : ∀ slots, before slots → stronger (Function.update slots index cell)) :
    Simulates touched before narrow (writeSlot index cell >>= next) values exits := by
  intro state slots start
  obtain ⟨outcome, slots', runs, ends, untouched⟩ :=
    simulates state (Function.update slots index cell) (holds slots start)
  refine ⟨outcome, slots', runs, ends, ?_⟩
  intro other outside
  have different : other ≠ index := fun same => outside (same ▸ member)
  rw [untouched other outside, Function.update_of_ne different]

theorem simulates_storing [DecidableEq Index] (member : index ∈ touched) :
    Simulates touched before (pure cell : Action State Exit Cell) (writeSlot index cell)
      (fun value _ slots => slots index = value) exits := by
  intro _ slots _
  have stored : Function.update slots index cell index = cell := Function.update_self index cell slots
  refine ⟨.ok (), Function.update slots index cell, rfl, stored, ?_⟩
  intro other outside
  have different : other ≠ index := fun same => outside (same ▸ member)
  rw [Function.update_of_ne different]

theorem Simulates.resume {middle : α → β → (Index → Cell) → Prop}
    {left : (Index → Cell) → Prop} {next : Except Exit α → Action State Exit γ}
    {onward : Except Exit β → Action (State × (Index → Cell)) Exit δ}
    {values : γ → δ → (Index → Cell) → Prop}
    (first : Simulates touched before narrow wide middle left)
    (onValue : ∀ value other,
      Simulates touched (middle value other) (next (.ok value)) (onward (.ok other)) values exits)
    (onExit : ∀ exit, Simulates touched left (next (.error exit)) (onward (.error exit)) values exits) :
    Simulates touched before (narrow.resume next) (wide.resume onward) values exits := by
  intro state slots start
  obtain ⟨outcome, slots₁, runs, ends, untouched⟩ := first state slots start
  have rest : ∃ outcome' slots', onward outcome ((narrow state).2, slots₁) =
      (outcome', (next (narrow state).1 (narrow state).2).2, slots') ∧
      Ends values exits (next (narrow state).1 (narrow state).2).1 outcome' slots' ∧
      ∀ index, index ∉ touched → slots' index = slots₁ index := by
    cases narrowly : (narrow state).1 with
    | ok value =>
      cases outcome with
      | ok other =>
        rw [narrowly] at ends
        exact onValue value other _ slots₁ ends
      | error exit => rw [narrowly] at ends; exact ends.elim
    | error exit =>
      cases outcome with
      | ok other => rw [narrowly] at ends; exact ends.elim
      | error other =>
        rw [narrowly] at ends
        obtain ⟨rfl, holds⟩ := ends
        exact onExit exit _ slots₁ holds
  obtain ⟨outcome', slots', continues, finally_, untouched'⟩ := rest
  refine ⟨outcome', slots', ?_, finally_, ?_⟩
  · show onward (wide (state, slots)).1 (wide (state, slots)).2 = _
    rw [runs]
    exact continues
  · intro index outside
    rw [untouched' index outside, untouched index outside]

theorem Simulates.bind {middle : α → β → (Index → Cell) → Prop}
    {onward : β → Action (State × (Index → Cell)) Exit δ} {values : γ → δ → (Index → Cell) → Prop}
    (first : Simulates touched before narrow wide middle exits)
    (then_ : ∀ value other, Simulates touched (middle value other) (next value) (onward other) values exits) :
    Simulates touched before (narrow >>= next) (wide >>= onward) values exits := by
  rw [bind_eq, bind_eq]
  exact first.resume then_ fun _ => simulates_throw fun _ holds => holds

theorem Simulates.bind_keeping {wide : Action (State × (Index → Cell)) Exit α}
    {onward : α → Action (State × (Index → Cell)) Exit δ} {values : γ → δ → (Index → Cell) → Prop}
    (outside : index ∉ touched) (within : touched ⊆ larger)
    (first : Simulates touched before narrow wide (fun value other _ => value = other) fun _ => True)
    (onBefore : ∀ slots, stronger slots → slots index = cell ∧ before slots)
    (then_ : ∀ value, Simulates larger (fun slots => slots index =
      cell) (next value) (onward value) values fun slots => slots index = cell) :
    Simulates larger stronger (narrow >>= next) (wide >>= onward) values fun slots => slots index = cell := by
  have kept := (first.frame (fun slots => slots index = cell) fun slots slots' same holds =>
    (same index outside).trans holds).imp within
    (fun slots holds => ⟨(onBefore slots holds).2, (onBefore slots holds).1⟩)
    (fun _ _ _ holds => holds) fun _ holds => holds.2
  refine kept.bind fun value other => simulates_of_fact fun same => ?_
  subst same
  exact then_ value

end Simulation

section Mirroring

theorem mirrors_pure {value : α} : Mirrors touched (pure value : Action State Exit α)
      (pure value : Action (State × (Index → Cell)) Exit α) :=
  simulates_pure fun _ _ => rfl

theorem mirrors_throw {exit : Exit} : Mirrors touched (throw exit : Action State Exit α)
      (throw exit : Action (State × (Index → Cell)) Exit α) :=
  simulates_throw fun _ _ => trivial

variable {narrow : Action State Exit α} {wide : Action (State × (Index → Cell)) Exit α}

theorem Mirrors.resume {next : Except Exit α → Action State Exit γ}
    {onward : Except Exit α → Action (State × (Index → Cell)) Exit γ}
    (first : Mirrors touched narrow wide)
    (then_ : ∀ outcome, Mirrors touched (next outcome) (onward outcome)) :
    Mirrors touched (narrow.resume next) (wide.resume onward) := by
  refine Simulates.resume first ?_ fun exit => then_ (.error exit)
  intro value _ state slots same
  subst same
  exact then_ (.ok value) state slots trivial

theorem Simulates.bind_mirrors {before : (Index → Cell) → Prop} {onward : α → Action (State × (Index → Cell)) Exit γ}
    (first : Simulates touched before narrow wide (fun value other _ => value = other) fun _ => True)
    (then_ : ∀ value, Mirrors touched (next value) (onward value)) :
    Simulates touched before (narrow >>= next) (wide >>= onward)
      (fun value other _ => value = other) fun _ => True := by
  refine first.bind fun value other => ?_
  intro state slots same
  subst same
  exact then_ value state slots trivial

theorem Mirrors.bind {onward : α → Action (State × (Index → Cell)) Exit γ} (first : Mirrors touched narrow wide)
    (then_ : ∀ value, Mirrors touched (next value) (onward value)) :
    Mirrors touched (narrow >>= next) (wide >>= onward) :=
  Simulates.bind_mirrors first then_

theorem simulates_inOrder {narrows : List (Action State Exit α)}
    {wides : List (Action (State × (Index → Cell)) Exit α)}
    (each : List.Forall₂ (Mirrors touched) narrows wides) :
    Simulates touched (fun _ => True) (inOrder narrows) (inOrder wides)
      (fun values others _ => values = others ∧ values.length = narrows.length) fun _ => True := by
  induction each with
  | nil => exact simulates_pure fun _ _ => ⟨rfl, rfl⟩
  | cons first _ ih =>
    refine Simulates.bind first fun value other => ?_
    intro state slots same
    subst same
    refine ih.bind (fun values others => ?_) state slots trivial
    exact simulates_pure fun _ holds => ⟨congrArg _ holds.1, congrArg (· + 1) holds.2⟩

theorem Mirrors.bind_inOrder {narrows : List (Action State Exit α)}
    {wides : List (Action (State × (Index → Cell)) Exit α)}
    {next : List α → Action State Exit γ}
    {onward : List α → Action (State × (Index → Cell)) Exit γ}
    (each : List.Forall₂ (Mirrors touched) narrows wides)
    (then_ : ∀ values, values.length = narrows.length → Mirrors touched (next values) (onward values)) :
    Mirrors touched (inOrder narrows >>= next) (inOrder wides >>= onward) := by
  refine (simulates_inOrder each).bind fun values others => ?_
  intro state slots holds
  obtain ⟨rfl, length⟩ := holds
  exact then_ values length state slots trivial

end Mirroring

section Loops

variable {handles : Exit → Handling} {spent : Exit}
variable {test' : Action (State × (Index → Cell)) Exit Bool}

theorem Simulates.afterRound {before : (Index → Cell) → Prop}
    {narrow : Action State Exit Unit} {wide : Action (State × (Index → Cell)) Exit Unit}
    (again : Simulates touched before narrow wide (fun value other _ => value = other) fun _ => True)
    (exit : Exit) :
    Simulates touched before (afterRound handles narrow (.error exit : Except Exit α))
      (afterRound handles wide (.error exit : Except Exit β)) (fun value other _ => value = other)
      fun _ => True := by
  show Simulates touched before (handled narrow exit (handles exit)) (handled wide exit (handles exit)) _ _
  cases handles exit with
  | again => exact again
  | leave => exact simulates_pure fun _ _ => rfl
  | pass => exact simulates_throw fun _ _ => trivial

theorem Mirrors.whileRounds {test : Action State Exit Bool} {body : Action State Exit α}
    {body' : Action (State × (Index → Cell)) Exit α} (tests : Mirrors touched test test')
    (bodies : Mirrors touched body body') (limit : Nat) :
    Mirrors touched (whileRounds handles spent test body limit) (whileRounds handles spent test' body' limit) := by
  induction limit with
  | zero => exact mirrors_throw
  | succ limit ih =>
    refine Mirrors.bind tests fun goes => ?_
    cases goes with
    | false => exact mirrors_pure
    | true =>
      refine Mirrors.resume bodies fun outcome => ?_
      cases outcome with
      | ok value => exact ih
      | error exit => exact Simulates.afterRound ih exit

theorem simulates_countedRounds {index : Index} (outside : index ∉ touched)
    {kept : (Index → Cell) → Prop} (stable : ∀ slots slots' : Index → Cell,
      (∀ other, other ∉ insert index touched → slots' other = slots other) →
        kept slots → kept slots') {test : Cell → Action State Exit Bool}
    {advance : Cell → Action State Exit Cell} {body : Action State Exit α}
    {advance' : Action (State × (Index → Cell)) Exit β}
    {body' : Action (State × (Index → Cell)) Exit α}
    (tests : ∀ counter, Simulates touched (fun slots => slots index = counter ∧ kept slots)
      (test counter) test' (fun goes goes' _ => goes = goes') fun _ => True)
    (advances : ∀ counter, Simulates (insert index touched)
      (fun slots => slots index = counter ∧ kept slots) (advance counter) advance'
      (fun next _ slots => slots index = next) fun slots => slots index = counter)
    (bodies : Mirrors touched body body') (limit : Nat) (counter : Cell) :
    Simulates (insert index touched) (fun slots => slots index = counter ∧ kept slots)
      (countedRounds handles spent test advance body limit counter)
      (whileRounds handles spent test' (advance' >>= fun _ => body') limit)
      (fun value other _ => value = other) fun _ => True := by
  have within := Set.subset_insert index touched
  -- What a round needs holds after anything that leaves the counter and the other slots alone.
  have stays : ∀ next (slots slots' : Index → Cell), (∀ other, other ∉ touched → slots' other = slots other) →
        slots index = next ∧ kept slots → slots' index = next ∧ kept slots' :=
    fun next slots slots' same holds => ⟨(same index outside).trans holds.1,
      stable slots slots' (fun other beyond => same other fun member => beyond (within member)) holds.2⟩
  induction limit generalizing counter with
  | zero => exact simulates_throw fun _ _ => trivial
  | succ limit ih =>
    have tested := ((tests counter).frame _ (stays counter)).mono within
    refine (tested.imp subset_rfl (fun _ holds => ⟨holds, holds⟩) (fun _ _ _ holds => holds)
      fun _ _ => trivial).bind fun goes goes' => simulates_of_fact fun same => ?_
    subst same
    cases goes with
    | false => exact simulates_pure fun _ _ => rfl
    | true =>
      rw [if_pos rfl, if_pos rfl, Action.resume_bind]
      refine (((advances counter).frame kept stable).imp subset_rfl
        (fun _ holds => ⟨holds, holds.2⟩) (fun _ _ _ holds => holds)
        fun _ holds => holds).resume (fun next _ => ?_) fun exit => (ih counter).afterRound exit
      have bodily := (bodies.frame _ (stays next)).mono within
      exact (bodily.imp subset_rfl (fun _ holds => ⟨trivial, holds⟩)
        (fun _ _ _ holds => holds.2) fun _ holds => holds.2).resume (fun _ _ => ih next)
        fun exit => (ih next).afterRound exit

end Loops

end Simulations
