import Mathlib.Data.List.Basic

/-!
Control flow between blocks of straight-line instructions: runs that go from inside one block
to another through a given set of blocks, and runs that come to a standstill.
-/

namespace BlockGraph

structure Block (Inst Term : Type) where
  insts : List Inst := []
  terminator : Option Term := none

abbrev Graph (Inst Term : Type) := Nat → Block Inst Term

structure Machine (Inst Term State : Type) where
  exec : Inst → State → Option State
  target : Term → State → Option Nat

variable {Inst Term State : Type} (machine : Machine Inst Term State)

def Machine.runInsts : List Inst → State → Option State
  | [], state => some state
  | inst :: rest, state => (machine.exec inst state).bind (runInsts rest)

def Machine.leave (terminator : Option Term) (state : State) : Option (Nat × State) :=
  (terminator.bind fun term => machine.target term state).map fun target => (target, state)

def Machine.finish (block : Block Inst Term) (skip : Nat) (state : State) : Option (Nat × State) :=
  (machine.runInsts (block.insts.drop skip) state).bind (machine.leave block.terminator)

/-- A run from inside a block to the start of another, through blocks in `inner`. -/
inductive Leads (graph : Graph Inst Term) (inner : Nat → Prop) :
    Nat → Nat → State → Nat → State → Prop
  | arrive {block skip target : Nat} {state final : State} :
      machine.finish (graph block) skip state = some (target, final) →
      Leads graph inner block skip state target final
  | pass {block skip middle target : Nat} {state between final : State} :
      machine.finish (graph block) skip state = some (middle, between) → inner middle →
      Leads graph inner middle 0 between target final →
      Leads graph inner block skip state target final

/-- A run through blocks in `inner` that gets stuck in one of them. -/
inductive Stops (graph : Graph Inst Term) (inner : Nat → Prop) : Nat → Nat → State → Prop
  | here {block skip : Nat} {state : State} :
      machine.finish (graph block) skip state = none → Stops graph inner block skip state
  | pass {block skip middle : Nat} {state between : State} :
      machine.finish (graph block) skip state = some (middle, between) → inner middle →
      Stops graph inner middle 0 between → Stops graph inner block skip state

variable {machine} {graph : Graph Inst Term} {inner wider : Nat → Prop}
variable {block skip middle target other : Nat} {state between final last : State}

theorem runInsts_append (first second : List Inst) (state : State) : machine.runInsts (first ++ second) state =
      (machine.runInsts first state).bind (machine.runInsts second) := by
  induction first generalizing state with
  | nil => rfl
  | cons inst rest ih =>
    simp only [List.cons_append, Machine.runInsts]
    cases machine.exec inst state with
    | none => rfl
    | some next => exact ih next

theorem finish_advance {run : List Inst} {rest : Block Inst Term}
    (inside : rest.insts.drop skip = run ++ rest.insts.drop (skip + run.length))
    (ran : machine.runInsts run state = some between) :
    machine.finish rest skip state = machine.finish rest (skip + run.length) between := by
  unfold Machine.finish
  rw [inside, runInsts_append, ran]
  rfl

theorem Leads.trans (first : Leads machine graph inner block skip state middle between)
    (within : inner middle) (second : Leads machine graph inner middle 0 between target final) :
    Leads machine graph inner block skip state target final := by
  induction first with
  | arrive finished => exact .pass finished within second
  | pass finished through _ ih => exact .pass finished through (ih within second)

theorem Leads.stops (first : Leads machine graph inner block skip state middle between)
    (within : inner middle) (second : Stops machine graph inner middle 0 between) :
    Stops machine graph inner block skip state := by
  induction first with
  | arrive finished => exact .pass finished within second
  | pass finished through _ ih => exact .pass finished through (ih within second)

theorem Leads.mono (leads : Leads machine graph inner block skip state target final)
    (subset : ∀ block, inner block → wider block) :
    Leads machine graph wider block skip state target final := by
  induction leads with
  | arrive finished => exact .arrive finished
  | pass finished through _ ih => exact .pass finished (subset _ through) ih

theorem Stops.mono (stops : Stops machine graph inner block skip state)
    (subset : ∀ block, inner block → wider block) :
    Stops machine graph wider block skip state := by
  induction stops with
  | here stuck => exact .here stuck
  | pass finished through _ ih => exact .pass finished (subset _ through) ih

theorem Leads.unique (first : Leads machine graph inner block skip state target final)
    (second : Leads machine graph inner block skip state other last) (outside : ¬ inner target)
    (otherOutside : ¬ inner other) : target = other := by
  induction first with
  | arrive finished =>
    cases second with
    | arrive again =>
      rw [finished] at again
      cases again
      rfl
    | pass again through _ =>
      rw [finished] at again
      cases again
      exact absurd through outside
  | pass finished through _ ih =>
    cases second with
    | arrive again =>
      rw [finished] at again
      cases again
      exact absurd through otherOutside
    | pass again _ rest =>
      rw [finished] at again
      cases again
      exact ih rest outside

theorem Stops.not_leads (stops : Stops machine graph inner block skip state)
    (outside : ¬ inner target) : ¬ Leads machine graph inner block skip state target final := by
  intro leads
  induction stops with
  | here stuck =>
    cases leads with
    | arrive finished | pass finished _ _ =>
      rw [stuck] at finished
      cases finished
  | pass finished through _ ih =>
    cases leads with
    | arrive again =>
      rw [finished] at again
      cases again
      exact outside through
    | pass again _ rest =>
      rw [finished] at again
      cases again
      exact ih rest

end BlockGraph
