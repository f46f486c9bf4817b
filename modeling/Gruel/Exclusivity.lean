import Mathlib.Tactic
import Gruel.ExclusivityCore
import Gruel.Lib.Surviving

/-!
The law of exclusivity for the calls of an accepted body: what each operand of a
call reaches while the call runs, which of these accesses the check compares,
and which it leaves to chance.
-/

namespace Gruel.Exclusivity

open Surviving

inductive AccessKind
  | moved
  | shared
  | sliced
  | mutable
  deriving DecidableEq, Repr

structure Access where
  root : String
  kind : AccessKind
  deriving DecidableEq, Repr

/-- The variables in scope at a call, and the variables that those of reference type refer to. -/
structure Env where
  kind : String → ValueKind
  refersTo : String → List String

namespace Env

variable (env : Env)

def reached (name : String) : List String := name :: env.refersTo name

def access (kind : AccessKind) (name : String) : List Access :=
  (env.reached name).map fun root => ⟨root, kind⟩

def useOf (name : String) : ValueKind → List Access
  | .copy => []
  | .owned => [⟨name, .moved⟩]
  | .ref => env.access .shared name
  | .slice => env.access .sliced name
  | .mutRef | .mutSlice => env.access .mutable name

mutual

def accesses : Expr → List Access
  | .var name => env.useOf name (env.kind name)
  | .project base kind =>
    match extractRootVariable base with
    | some root => env.useOf root kind
    | none => if kind = .copy then [] else accesses base
  | .makeRef isMut operand =>
    match extractRootVariable operand with
    | some root => env.access (if isMut then .mutable else .shared) root
    | none => accesses operand
  | .makeSlice isMut base _ =>
    match extractRootVariable base with
    | some root => env.access (if isMut then .mutable else .sliced) root
    | none => accesses base
  | .call _ _ operands kind =>
    if kind = .copy ∨ kind = .owned then [] else accessesAll operands
  | .choice _ values => accessesAll values
  | .aggregate parts => accessesAll parts
  | .fresh _ => []

def accessesAll : List Expr → List Access
  | [] => []
  | expr :: exprs => accesses expr ++ accessesAll exprs

end

def borrowed (kind : AccessKind) (expr : Expr) : List Access := match extractRootVariable expr with
  | some root => env.access kind root
  | none => env.accesses expr

end Env

variable {root : String} {isMut : Bool}
variable {env : Env} {arg : CallArg} {path : CallPath}

mutual

def Expr.calls : Expr → List (CallPath × List (Role × Expr))
  | .var _ => []
  | .project base _ => base.calls
  | .makeRef _ operand => operand.calls
  | .makeSlice _ base bounds => base.calls ++ callsOf bounds
  | .call path roles operands _ => (path, roles.zip operands) :: callsOf operands
  | .choice parts values => callsOf parts ++ callsOf values
  | .aggregate parts | .fresh parts => callsOf parts

def callsOf : List Expr → List (CallPath × List (Role × Expr))
  | [] => []
  | expr :: exprs => expr.calls ++ callsOf exprs

end

section Bodies

variable {admits : Expr → Except SemaError Unit}

mutual

theorem analyzeCall_of_analyzeInst (expr : Expr) (accepted : analyzeInst admits expr = .ok ()) :
    ∀ call ∈ expr.calls, analyzeCall call.1 call.2 = .ok () := by
  match expr with
  | .var name => exact nofun
  | .project base kind =>
    obtain ⟨_, inner, -⟩ := bind_eq_ok.mp accepted
    exact analyzeCall_of_analyzeInst base inner
  | .makeRef isMut operand =>
    rw [analyzeInst] at accepted
    split at accepted
    · cases accepted
    obtain ⟨_, inner, -⟩ := bind_eq_ok.mp accepted
    exact analyzeCall_of_analyzeInst operand inner
  | .makeSlice isMut base bounds =>
    rw [analyzeInst] at accepted
    split at accepted
    · cases accepted
    obtain ⟨_, first, accepted⟩ := bind_eq_ok.mp accepted
    obtain ⟨_, second, -⟩ := bind_eq_ok.mp accepted
    rw [Expr.calls, List.forall_mem_append]
    exact ⟨analyzeCall_of_analyzeInst base first, analyzeCall_of_analyzeInsts bounds second⟩
  | .call path roles operands kind =>
    rw [analyzeInst] at accepted
    obtain ⟨_, passed, accepted⟩ := bind_eq_ok.mp accepted
    obtain ⟨_, inner, -⟩ := bind_eq_ok.mp accepted
    rw [Expr.calls, List.forall_mem_cons]
    exact ⟨passed, analyzeCall_of_analyzeInsts operands inner⟩
  | .choice parts values =>
    rw [analyzeInst] at accepted
    obtain ⟨_, first, accepted⟩ := bind_eq_ok.mp accepted
    obtain ⟨_, second, -⟩ := bind_eq_ok.mp accepted
    rw [Expr.calls, List.forall_mem_append]
    exact ⟨analyzeCall_of_analyzeInsts parts first, analyzeCall_of_analyzeInsts values second⟩
  | .aggregate parts | .fresh parts =>
    rw [analyzeInst] at accepted
    obtain ⟨_, inner, -⟩ := bind_eq_ok.mp accepted
    exact analyzeCall_of_analyzeInsts parts inner

theorem analyzeCall_of_analyzeInsts (exprs : List Expr) (accepted : analyzeInsts admits exprs = .ok ()) :
    ∀ call ∈ callsOf exprs, analyzeCall call.1 call.2 = .ok () := by
  match exprs with
  | [] => exact nofun
  | expr :: exprs =>
    obtain ⟨_, first, rest⟩ := bind_eq_ok.mp accepted
    rw [callsOf, List.forall_mem_append]
    exact ⟨analyzeCall_of_analyzeInst expr first, analyzeCall_of_analyzeInsts exprs rest⟩

end

end Bodies

namespace ExclusivitySample

def owners : Env := ⟨fun _ => .owned, fun _ => []⟩

end ExclusivitySample

end Gruel.Exclusivity
