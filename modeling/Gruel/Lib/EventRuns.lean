import Mathlib.Tactic

/-!
Steps that change a state, log events and then complete or stop for a reason,
and assertions about them of the form: as long as every event logged is one that
is assumed, every event is one that is guaranteed.
-/

namespace EventRuns

inductive Outcome (Exit : Type)
  | done
  | exit (reason : Exit)
  deriving DecidableEq, Repr

structure Run (State Event Exit : Type) where
  outcome : Outcome Exit
  events : List Event
  state : State

abbrev Step (State Event Exit : Type) := State → Run State Event Exit

variable {State Event Exit : Type}

def skip : Step State Event Exit := fun state => ⟨.done, [], state⟩

def stop (reason : Exit) : Step State Event Exit := fun state => ⟨.exit reason, [], state⟩

def log (event : Event) : Step State Event Exit := fun state => ⟨.done, [event], state⟩

def modify (change : State → State) : Step State Event Exit := fun state =>
  ⟨.done, [], change state⟩

def ask {Answer : Type} (question : State → Answer × State)
    (next : Answer → Step State Event Exit) : Step State Event Exit := fun state =>
  next (question state).1 (question state).2

def resume (first : Step State Event Exit) (next : Outcome Exit → Step State Event Exit) :
    Step State Event Exit := fun state =>
  let early := first state
  let late := next early.outcome early.state
  ⟨late.outcome, early.events ++ late.events, late.state⟩

def seq (first second : Step State Event Exit) : Step State Event Exit := resume first fun
    | .done => second
    | .exit reason => stop reason

def rounds (body : Step State Event Exit) (exhausted : Exit)
    (next : Outcome Exit → Step State Event Exit → Step State Event Exit) :
    Nat → Step State Event Exit
  | 0 => stop exhausted
  | limit + 1 => resume body fun outcome => next outcome (rounds body exhausted next limit)

section Assertions

variable (invariant : State → Prop) (assumed guaranteed : Event → Prop) (exits : Exit → Prop)

def Ends (completes : Prop) : Outcome Exit → Prop
  | .done => completes
  | .exit reason => exits reason

/-- From a state with the invariant, and as long as all its events are assumed, the step keeps the
invariant, guarantees its events, completes only if `completes` and stops only for the reasons in
`exits`. -/
def Keeps (completes : Prop) (step : Step State Event Exit) : Prop :=
  ∀ state, invariant state → (∀ event ∈ (step state).events, assumed event) →
    (∀ event ∈ (step state).events, guaranteed event) ∧ invariant (step state).state ∧
      Ends exits completes (step state).outcome

variable {invariant assumed guaranteed exits} {completes after : Prop} {step second : Step State Event Exit}

theorem Keeps.imp {larger : Exit → Prop} (keeps : Keeps invariant assumed guaranteed exits
      completes step) (weaken : completes → after) (widen : ∀ reason, exits reason → larger reason) :
    Keeps invariant assumed guaranteed larger after step := by
  intro state holds assume
  obtain ⟨guarantee, kept, ends⟩ := keeps state holds assume
  refine ⟨guarantee, kept, ?_⟩
  cases outcome : (step state).outcome with
  | done =>
    rw [outcome] at ends
    exact weaken ends
  | exit reason =>
    rw [outcome] at ends
    exact widen reason ends

theorem Keeps.mono (keeps : Keeps invariant assumed guaranteed exits completes step)
    (weaken : completes → after) : Keeps invariant assumed guaranteed exits after step :=
  keeps.imp weaken fun _ allowed => allowed

theorem keeps_skip : Keeps invariant assumed guaranteed exits True (skip : Step State Event Exit) :=
  fun _ holds _ => ⟨nofun, holds, trivial⟩

theorem keeps_stop {reason : Exit} (allowed : exits reason) :
    Keeps invariant assumed guaranteed exits False (stop reason : Step State Event Exit) :=
  fun _ holds _ => ⟨nofun, holds, allowed⟩

theorem keeps_log {event : Event} (fine : assumed event → guaranteed event) :
    Keeps invariant assumed guaranteed exits (guaranteed event) (log event : Step State Event Exit) := by
  intro _ holds assume
  have guarantee := fine (assume event (.head _))
  refine ⟨?_, holds, guarantee⟩
  intro _ member
  rw [List.mem_singleton.mp member]
  exact guarantee

theorem keeps_modify {change : State → State} (keeps : ∀ state, invariant state → invariant (change state)) :
    Keeps invariant assumed guaranteed exits True (modify change : Step State Event Exit) :=
  fun state holds _ => ⟨nofun, keeps state holds, trivial⟩

theorem keeps_ask {Answer : Type} {question : State → Answer × State}
    {next : Answer → Step State Event Exit} (expected : Answer → Prop)
    (answers : ∀ state, invariant state → expected (question state).1 ∧ invariant (question state).2)
    (keeps : ∀ answer, expected answer → Keeps invariant assumed guaranteed exits completes (next answer)) :
    Keeps invariant assumed guaranteed exits completes (ask question next) := by
  intro state holds assume
  obtain ⟨fits, kept⟩ := answers state holds
  exact keeps _ fits _ kept assume

theorem Keeps.resume {early : Exit → Prop} {next : Outcome Exit → Step State Event Exit}
    (keeps : Keeps invariant assumed guaranteed early completes step)
    (goesOn : ∀ outcome, Ends early completes outcome →
      Keeps invariant assumed guaranteed exits after (next outcome)) :
    Keeps invariant assumed guaranteed exits after (EventRuns.resume step next) := by
  intro state holds assume
  obtain ⟨guarantee, kept, ends⟩ := keeps state holds fun event member =>
    assume event (List.mem_append_left _ member)
  obtain ⟨lateGuarantee, lateKept, lateEnds⟩ := goesOn _ ends _ kept fun event member =>
    assume event (List.mem_append_right _ member)
  refine ⟨?_, lateKept, lateEnds⟩
  intro event member
  rcases List.mem_append.mp member with member | member
  · exact guarantee event member
  · exact lateGuarantee event member

theorem Keeps.seq (keeps : Keeps invariant assumed guaranteed exits completes step)
    (goesOn : completes → Keeps invariant assumed guaranteed exits after second) :
    Keeps invariant assumed guaranteed exits after (EventRuns.seq step second) := by
  refine keeps.resume ?_
  intro outcome ends
  cases outcome with
  | done => exact goesOn ends
  | exit reason =>
    have allowed : exits reason := ends
    exact (keeps_stop allowed).mono False.elim

theorem Keeps.rounds {body : Step State Event Exit} {exhausted : Exit} {early : Exit → Prop}
    {next : Outcome Exit → Step State Event Exit → Step State Event Exit}
    (keeps : Keeps invariant assumed guaranteed early completes body) (allowed : exits exhausted)
    (goesOn : ∀ outcome again, Ends early completes outcome → Keeps invariant assumed guaranteed exits after again →
      Keeps invariant assumed guaranteed exits after (next outcome again)) (limit : Nat) :
    Keeps invariant assumed guaranteed exits after (rounds body exhausted next limit) := by
  induction limit with
  | zero => exact (keeps_stop allowed).mono False.elim
  | succ limit ih => exact keeps.resume fun outcome ends => goesOn outcome _ ends ih

end Assertions

end EventRuns
