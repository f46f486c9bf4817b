import Gruel.ComptimeCore
import Gruel.Lib.Marked

/-!
The interpreter as it would be with lexical scopes: a block, a branch, a loop body or an
arm takes its bindings along when it ends, and an assignment changes the variable it names.
-/

namespace Gruel

namespace Comptime

open Marked

/-- The interpreter's state, with the variables in scope only.  A name is stale when a scope
that has ended was the last to bind it. -/
structure Lexical where
  interp : Interp := {}
  stale : List Name := []

abbrev InScope (α : Type) := α × Lexical

abbrev LexicalRun := Run CompileError

abbrev LexicalStep := Expr → Lexical → LexicalRun (InScope ConstValue)

def Interp.withLocals (interp : Interp) (locals : List (Name × ConstValue)) : Interp :=
  { interp with scope := { interp.scope with locals := locals } }

def added (before after : List (Name × ConstValue)) : List Name :=
  (after.take (after.length - before.length)).map Prod.fst

/-- Uses a name.  The interpreter finds the binding of an ended scope where it is stale, and
the run is marked. -/
def Lexical.use (lexical : Lexical) (name : Name) : LexicalRun Unit :=
  ⟨decide (name ∈ lexical.stale), .ok ()⟩

def Lexical.refresh (names : List Name) (lexical : Lexical) : Lexical :=
  { lexical with stale := lexical.stale.filter fun name => decide (name ∉ names) }

def Lexical.enter (lexical : Lexical) (scope : Scope ConstValue) : Lexical :=
  Lexical.refresh (added lexical.interp.scope.locals scope.locals)
    { lexical with interp := { lexical.interp with scope := scope } }

def Lexical.leave (before after : Lexical) : Lexical where
  interp := after.interp.withLocals (after.interp.scope.locals.drop
    (after.interp.scope.locals.length - before.interp.scope.locals.length))
  stale := added before.interp.scope.locals after.interp.scope.locals ++ after.stale

def inScope (run : Lexical → LexicalRun (InScope ConstValue)) (lexical : Lexical) :
    LexicalRun (InScope ConstValue) := do
  let (value, after) ← run lexical
  pure (value, lexical.leave after)

def assignLocal (name : Name) (value : ConstValue) : List (Name × ConstValue) → Option (List (Name × ConstValue))
  | [] => none
  | entry :: locals =>
    if entry.1 = name then some ((name, value) :: locals)
    else (assignLocal name value locals).map (entry :: ·)

/-- An assignment to a name that is not in scope has no meaning; the interpreter makes it a
variable. -/
def Lexical.assign (lexical : Lexical) (name : Name) (value : ConstValue) : LexicalRun (InScope ConstValue) :=
  match assignLocal name value lexical.interp.scope.locals with
  | some locals =>
    pure (.data .unit, Lexical.refresh [name] { lexical with interp := lexical.interp.withLocals locals })
  | none => ⟨true, .error notConst⟩

def StrictOp.useBase (lexical : Lexical) : StrictOp → LexicalRun Unit
  | .fieldSet base _ | .indexSet base => lexical.use base
  | _ => pure ()

def lexicalOperands (run : LexicalStep) (accept : Nat → ConstValue → Except CompileError Unit) :
    Nat → List Expr → Lexical → LexicalRun (InScope (List ConstValue))
  | _, [], lexical => pure ([], lexical)
  | index, operand :: operands, lexical => do
      let (value, lexical) ← run operand lexical
      Run.ofExcept (accept index value)
      let (values, lexical) ← lexicalOperands run accept (index + 1) operands lexical
      pure (value :: values, lexical)

def lexicalStmts (run : LexicalStep) : List Expr → ConstValue → Lexical → LexicalRun (InScope ConstValue)
  | [], last, lexical => pure (last, lexical)
  | stmt :: stmts, _, lexical => do
      match ← run stmt lexical with
      | (.data value, lexical) => lexicalStmts run stmts (.data value) lexical
      | (signal, lexical) => pure (signal, lexical)

def lexicalArms (run : LexicalStep) (scrutinee : ConstValue) :
    List (Pattern × Expr) → Lexical → LexicalRun (InScope ConstValue)
  | [], _ => Run.ofExcept (.error noArmMatched)
  | (pattern, body) :: arms, lexical => do
      match ← Run.ofExcept (matchPattern pattern scrutinee lexical.interp.scope) with
      | some scope => run body (lexical.enter scope)
      | none => lexicalArms run scrutinee arms lexical

def lexicalBody (run : LexicalStep) (place : String) (body : Expr)
    (locals : List (Name × ConstValue)) (typeOverrides : List (Name × Ty)) (lexical : Lexical) :
    LexicalRun (InScope ConstValue) := do
  let (value, after) ← run body { interp := { lexical.interp with
          scope := { lexical.interp.scope with locals := locals }
          typeOverrides := typeOverrides
          callDepth := lexical.interp.callDepth + 1 } }
  let (value, interp) ← Run.ofExcept (finishCall place value { after.interp with
      scope := { after.interp.scope with locals := lexical.interp.scope.locals }
      typeOverrides := lexical.interp.typeOverrides
      callDepth := lexical.interp.callDepth })
  pure (value, { lexical with interp := interp })

def lexicalIteration (body again : Lexical → LexicalRun (InScope ConstValue))
    (lexical : Lexical) : LexicalRun (InScope ConstValue) := do
  let lexical :=
    { lexical with interp := { lexical.interp with steps := lexical.interp.steps + 1 } }
  if maxSteps < lexical.interp.steps then Run.ofExcept (.error stepBudgetExceeded)
  else
    match ← inScope body lexical with
    | (.breakSignal, lexical) => pure (.data .unit, lexical)
    | (_, lexical) => again lexical

def Lexical.returning (lexical : Lexical) (value : ConstValue) : Lexical :=
  { lexical with interp := { lexical.interp with returnValue := some value } }

def evaluateLexical (program : Program) : Nat → LexicalStep
  | 0, _, _ => Run.ofExcept (.error .outOfFuel)
  | fuel + 1, expr, lexical =>
    let run := evaluateLexical program fuel
    match expr with
    | .literal value => pure (.data value, lexical)
    | .strict op operands => do
        op.useBase lexical
        let target ← Run.ofExcept (targetOf op lexical.interp.scope.locals)
        let (values, lexical) ← lexicalOperands run (acceptOperand op) 0 operands lexical
        let (value, scope) ←
          Run.ofExcept (applyOp program.fieldIndex op target lexical.interp.scope values)
        pure (value, lexical.enter scope)
    | .block stmts => inScope (lexicalStmts run stmts (.data .unit)) lexical
    | .alloc name init => do
        let (value, lexical) ← run init lexical
        match name with
        | some name => pure (.data .unit, lexical.enter (bind lexical.interp.scope name value))
        | none => pure (.data .unit, lexical)
    | .varRef name => do
        lexical.use name
        match lookup lexical.interp.scope.locals name with
        | some value => pure (value, lexical)
        | none =>
          match lookupType program lexical.interp.typeOverrides name with
          | some ty => pure (.data (.type ty), lexical)
          | none => Run.ofExcept (.error notConst)
    | .assign name value => do
        let (value, lexical) ← run value lexical
        lexical.assign name value
    | .branch cond thenBlock elseBlock => do
        match ← run cond lexical with
        | (.data (.bool true), lexical) => inScope (run thenBlock) lexical
        | (.data (.bool false), lexical) =>
          match elseBlock with
          | some elseBlock => inScope (run elseBlock) lexical
          | none => pure (.data .unit, lexical)
        | _ => Run.ofExcept (.error notConst)
    | .comptime expr => run expr lexical
    | .loop cond body => do
        let (condition, lexical) ← run cond lexical
        if ← Run.ofExcept (asBool condition) then
          lexicalIteration (run body) (run (.loop cond body)) lexical
        else pure (.data .unit, lexical)
    | .infiniteLoop body => lexicalIteration (run body) (run (.infiniteLoop body)) lexical
    | .break => pure (.breakSignal, lexical)
    | .continue => pure (.continueSignal, lexical)
    | .ret none => pure (.returnSignal, lexical.returning (.data .unit))
    | .ret (some value) => do
        let (value, lexical) ← run value lexical
        pure (.returnSignal, lexical.returning value)
    | .call name args =>
      match program.functions name with
      | none => Run.ofExcept (.error notConst)
      | some info => do
          let (values, lexical) ← lexicalOperands run acceptAll 0 args lexical
          if callDepthLimit ≤ lexical.interp.callDepth then
            Run.ofExcept (.error callDepthExceeded)
          else
            lexicalBody run "function" info.body (callLocals info values) (typeOverridesOf info values) lexical
    | .methodCall receiver method args => do
        let (self, lexical) ← run receiver lexical
        let (structId, _) ← Run.ofExcept (getStruct lexical.interp.scope.heap self)
        match program.methods structId method with
        | none => Run.ofExcept (.error notConst)
        | some info => do
            let (values, lexical) ← lexicalOperands run acceptAll 0 args lexical
            if callDepthLimit ≤ lexical.interp.callDepth then
              Run.ofExcept (.error methodDepthExceeded)
            else
              lexicalBody run "method" info.body ((info.paramNames.zip values).reverse ++ [(program.selfName, self)])
                lexical.interp.typeOverrides lexical
    | .matchOn scrutinee arms => do
        let (scrutinee, lexical) ← run scrutinee lexical
        inScope (lexicalArms run scrutinee arms) lexical
    | .unsupported => Run.ofExcept (.error notConst)

def evaluateLexicalBlock (program : Program) (fuel : Nat) (expr : Expr)
    (captured : List (Name × ConstValue)) : LexicalRun ConstValue := do
  match ← evaluateLexical program fuel expr { interp := { scope := { locals := captured } } } with
  | (.breakSignal, _) | (.continueSignal, _) => Run.ofExcept (.error (jumpOutsideLoop "block"))
  | (.returnSignal, _) =>
    Run.ofExcept (.error (.failed "return outside a function in comptime block"))
  | (value, _) => pure value

end Comptime

end Gruel
