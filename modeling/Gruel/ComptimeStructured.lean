import Gruel.ComptimeCore
import Gruel.Lib.Marked

/-!
What control flow means at compile time: a jump is an outcome of its own, which leaves every
construct up to the loop or the call it belongs to.
-/

namespace Gruel

namespace Comptime

open Marked

inductive Outcome (α : Type)
  | value (value : α)
  | break
  | continue
  | return (value : Value)
  deriving DecidableEq

structure State where
  scope : Scope Value := {}
  steps : Nat := 0
  callDepth : Nat := 0
  typeOverrides : List (Name × Ty) := []
  deriving DecidableEq

abbrev Structured := Run CompileError

abbrev Ran (α : Type) := Outcome α × State

abbrev StructuredStep := Expr → State → Structured (Ran Value)

def withValue {α β : Type} (next : α → State → Structured (Ran β)) : Ran α → Structured (Ran β)
  | (.value value, state) => next value state
  | (.break, state) => Run.mark (.break, state)
  | (.continue, state) => Run.mark (.continue, state)
  | (.return value, state) => Run.mark (.return value, state)

def afterBody (again : State → Structured (Ran Value)) : Ran Value → Structured (Ran Value)
  | (.value _, state) => again state
  | (.continue, state) => again state
  | (.break, state) => pure (.value .unit, state)
  | (.return value, state) => Run.mark (.return value, state)

def structuredOperands (run : StructuredStep) (accept : Nat → Value → Except CompileError Unit) :
    Nat → List Expr → State → Structured (Ran (List Value))
  | _, [], state => pure (.value [], state)
  | index, operand :: operands, state =>
    run operand state >>= withValue fun value state => do
      Run.ofExcept (accept index value)
      structuredOperands run accept (index + 1) operands state >>= withValue fun values state =>
        pure (.value (value :: values), state)

def structuredStmts (run : StructuredStep) : List Expr → Value → State → Structured (Ran Value)
  | [], last, state => pure (.value last, state)
  | stmt :: stmts, _, state => do
      match ← run stmt state with
      | (.value value, state) => structuredStmts run stmts value state
      | (jump, state) => pure (jump, state)

def structuredArms (run : StructuredStep) (scrutinee : Value) : List (Pattern × Expr) → State → Structured (Ran Value)
  | [], _ => Run.ofExcept (.error noArmMatched)
  | (pattern, body) :: arms, state => do
      match ← Run.ofExcept (matchPattern pattern scrutinee state.scope) with
      | some scope => run body { state with scope := scope }
      | none => structuredArms run scrutinee arms state

def endCall (place : String) : Ran Value → Structured (Ran Value)
  | (.return value, state) => pure (.value value, state)
  | (.value value, state) => pure (.value value, state)
  | (.break, _) | (.continue, _) => Run.ofExcept (.error (jumpOutsideLoop place))

def structuredBody (run : StructuredStep) (place : String) (body : Expr)
    (locals : List (Name × Value)) (typeOverrides : List (Name × Ty)) (state : State) :
    Structured (Ran Value) := do
  let (outcome, after) ← run body { state with
      scope := { state.scope with locals := locals }
      typeOverrides := typeOverrides
      callDepth := state.callDepth + 1 }
  endCall place (outcome, { after with
      scope := { after.scope with locals := state.scope.locals }
      typeOverrides := state.typeOverrides
      callDepth := state.callDepth })

def evalStructured (program : Program) : Nat → StructuredStep
  | 0, _, _ => Run.ofExcept (.error .outOfFuel)
  | fuel + 1, expr, state =>
    let run := evalStructured program fuel
    match expr with
    | .literal value => pure (.value value, state)
    | .strict op operands => do
        let target ← Run.ofExcept (targetOf op state.scope.locals)
        structuredOperands run (acceptOperand op) 0 operands state >>=
          withValue fun values state => do
            let (value, scope) ←
              Run.ofExcept (applyOp program.fieldIndex op target state.scope values)
            pure (.value value, { state with scope := scope })
    | .block stmts => structuredStmts run stmts .unit state
    | .alloc name init =>
      run init state >>= withValue fun value state =>
        match name with
        | some name => pure (.value .unit, { state with scope := bind state.scope name value })
        | none => pure (.value .unit, state)
    | .varRef name =>
      match lookup state.scope.locals name with
      | some value => pure (.value value, state)
      | none =>
        match lookupType program state.typeOverrides name with
        | some ty => pure (.value (.type ty), state)
        | none => Run.ofExcept (.error notConst)
    | .assign name value =>
      run value state >>= withValue fun value state =>
        pure (.value .unit, { state with scope := bind state.scope name value })
    | .branch cond thenBlock elseBlock =>
      run cond state >>= withValue fun condition state => do
        if ← Run.ofExcept (asBool condition) then run thenBlock state
        else
          match elseBlock with
          | some elseBlock => run elseBlock state
          | none => pure (.value .unit, state)
    | .comptime expr => run expr state
    | .loop cond body =>
      run cond state >>= withValue fun condition state => do
        if ← Run.ofExcept (asBool condition) then
          if maxSteps < state.steps + 1 then Run.ofExcept (.error stepBudgetExceeded)
          else
            run body { state with steps := state.steps + 1 } >>= afterBody fun state =>
              run (.loop cond body) state
        else pure (.value .unit, state)
    | .infiniteLoop body =>
      if maxSteps < state.steps + 1 then Run.ofExcept (.error stepBudgetExceeded)
      else
        run body { state with steps := state.steps + 1 } >>= afterBody fun state =>
          run (.infiniteLoop body) state
    | .break => pure (.break, state)
    | .continue => pure (.continue, state)
    | .ret none => pure (.return .unit, state)
    | .ret (some value) =>
      run value state >>= withValue fun value state => pure (.return value, state)
    | .call name args =>
      match program.functions name with
      | none => Run.ofExcept (.error notConst)
      | some info =>
        structuredOperands run (fun _ _ => .ok ()) 0 args state >>=
          withValue fun values state =>
            if callDepthLimit ≤ state.callDepth then
              Run.ofExcept (.error callDepthExceeded)
            else
              structuredBody run "function" info.body (callLocals info values)
                (typeOverridesOf info values) state
    | .methodCall receiver method args =>
      run receiver state >>= withValue fun self state => do
        let (structId, _) ← Run.ofExcept (getStruct state.scope.heap self)
        match program.methods structId method with
        | none => Run.ofExcept (.error notConst)
        | some info =>
          structuredOperands run (fun _ _ => .ok ()) 0 args state >>=
            withValue fun values state =>
              if callDepthLimit ≤ state.callDepth then
                Run.ofExcept (.error methodDepthExceeded)
              else
                structuredBody run "method" info.body
                  ((info.paramNames.zip values).reverse ++ [(program.selfName, self)])
                  state.typeOverrides state
    | .matchOn scrutinee arms =>
      run scrutinee state >>= withValue fun scrutinee state =>
        structuredArms run scrutinee arms state
    | .unsupported => Run.ofExcept (.error notConst)

def structuredBlock (program : Program) (fuel : Nat) (expr : Expr)
    (captured : List (Name × Value)) : Run CompileError Value := do
  match ← evalStructured program fuel expr { scope := { locals := captured } } with
  | (.value value, _) => pure value
  | (.break, _) | (.continue, _) => Run.ofExcept (.error (jumpOutsideLoop "block"))
  | (.return _, _) =>
    Run.ofExcept (.error (.failed "return outside a function in comptime block"))

end Comptime

end Gruel
