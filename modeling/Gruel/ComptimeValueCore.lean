import Gruel.ComptimeScopeCore
import Gruel.Lib.Versions

/-!
The interpreter as it would be with aggregates that are values: no cell ever changes.
-/

namespace Gruel

namespace Comptime

open Marked Versions

def ConstValue.heapIdx : ConstValue → Option Nat
  | .data (.struct heapIdx) | .data (.array heapIdx) | .data (.comptimeStr heapIdx)
  | .data (.enumData _ _ heapIdx) | .data (.enumStruct _ _ heapIdx) => some heapIdx
  | _ => none

/-- The state of the interpreter with values.  Every cell was made by an allocation or by an
update; the interpreter keeps it in the cell at `places`, of which it has `cells`. -/
structure Valued where
  interp : Interp := {}
  places : List Nat := []
  cells : Nat := 0

abbrev WithValue (α : Type) := α × Valued

abbrev ValuedRun := Run CompileError

abbrev ValuedStep := Expr → Valued → ValuedRun (WithValue ConstValue)

/-- Looks into aggregates.  The interpreter sees the updated cell where one is outdated, and
the run is marked. -/
def Valued.read (valued : Valued) (operands : List ConstValue) : ValuedRun Unit :=
  ⟨operands.any fun operand => operand.heapIdx.any (outdated valued.places), .ok ()⟩

def StrictOp.looksInto (target : Nat) : StrictOp → List ConstValue → List ConstValue
  | .bin _, operands | .indexGet, operands | .fieldGet _, operands
  | .structDestructure _, operands => operands
  | .fieldSet .., _ => [.data (.struct target)]
  | .indexSet _, _ => [.data (.array target)]
  | _, _ => []

def Valued.extend (valued : Valued) (scope : Scope ConstValue) : Valued :=
  if scope.heap.length = valued.interp.scope.heap.length then
    { valued with interp := { valued.interp with scope := scope } }
  else
    { interp := { valued.interp with scope := scope }
      places := valued.places ++ [valued.cells]
      cells := valued.cells + 1 }

/-- Puts the updated cell of a scope beside the old one, and makes it the variable's.  The
interpreter writes to the cell the variable had before the operands were evaluated, and the
run is marked where it has another by now. -/
def Valued.renew (valued : Valued) (base : Name) (handle : Nat → Value) (target : Nat)
    (scope : Scope ConstValue) : ValuedRun (WithValue ConstValue) :=
  match assignLocal base (.data (handle valued.interp.scope.heap.length))
      valued.interp.scope.locals, scope.heap[target]?, valued.places[target]? with
  | some locals, some item, some place =>
    ⟨lookup valued.interp.scope.locals base != some (.data (handle target)), .ok (.data .unit, { valued with
          interp :=
            { valued.interp with
              scope := { locals := locals, heap := valued.interp.scope.heap ++ [item] } }
          places := valued.places ++ [place] })⟩
  | _, _, _ => ⟨true, .error notConst⟩

def Valued.apply (valued : Valued) (fieldIndex : FieldIndex) (op : StrictOp) (target : Nat)
    (operands : List ConstValue) : ValuedRun (WithValue ConstValue) := do
  valued.read (op.looksInto target operands)
  let (value, scope) ←
    Run.ofExcept (applyOp fieldIndex op target valued.interp.scope operands)
  match op with
  | .fieldSet base _ => valued.renew base .struct target scope
  | .indexSet base => valued.renew base .array target scope
  | _ => pure (value, valued.extend scope)

def valuedOperands (run : ValuedStep) (accept : Nat → ConstValue → Except CompileError Unit) :
    Nat → List Expr → Valued → ValuedRun (WithValue (List ConstValue))
  | _, [], valued => pure ([], valued)
  | index, operand :: operands, valued => do
      let (value, valued) ← run operand valued
      Run.ofExcept (accept index value)
      let (values, valued) ← valuedOperands run accept (index + 1) operands valued
      pure (value :: values, valued)

def valuedStmts (run : ValuedStep) : List Expr → ConstValue → Valued → ValuedRun (WithValue ConstValue)
  | [], last, valued => pure (last, valued)
  | stmt :: stmts, _, valued => do
      match ← run stmt valued with
      | (.data value, valued) => valuedStmts run stmts (.data value) valued
      | (signal, valued) => pure (signal, valued)

def valuedArms (run : ValuedStep) (scrutinee : ConstValue) :
    List (Pattern × Expr) → Valued → ValuedRun (WithValue ConstValue)
  | [], _ => Run.ofExcept (.error noArmMatched)
  | (pattern, body) :: arms, valued => do
      match ← Run.ofExcept (matchPattern pattern scrutinee valued.interp.scope) with
      | some scope => run body (valued.extend scope)
      | none => valuedArms run scrutinee arms valued

def valuedBody (run : ValuedStep) (place : String) (body : Expr)
    (locals : List (Name × ConstValue)) (typeOverrides : List (Name × Ty)) (valued : Valued) :
    ValuedRun (WithValue ConstValue) := do
  let (value, after) ← run body { valued with
      interp :=
        { valued.interp with
          scope := { valued.interp.scope with locals := locals }
          typeOverrides := typeOverrides
          callDepth := valued.interp.callDepth + 1 } }
  let (value, interp) ← Run.ofExcept (finishCall place value { after.interp with
      scope := { after.interp.scope with locals := valued.interp.scope.locals }
      typeOverrides := valued.interp.typeOverrides
      callDepth := valued.interp.callDepth })
  pure (value, { after with interp := interp })

def valuedIteration (body again : Valued → ValuedRun (WithValue ConstValue)) (valued : Valued) :
    ValuedRun (WithValue ConstValue) := do
  let valued := { valued with interp := { valued.interp with steps := valued.interp.steps + 1 } }
  if maxSteps < valued.interp.steps then Run.ofExcept (.error stepBudgetExceeded)
  else
    match ← body valued with
    | (.breakSignal, valued) => pure (.data .unit, valued)
    | (_, valued) => again valued

def Valued.returning (valued : Valued) (value : ConstValue) : Valued :=
  { valued with interp := { valued.interp with returnValue := some value } }

def evaluateValued (program : Program) : Nat → ValuedStep
  | 0, _, _ => Run.ofExcept (.error .outOfFuel)
  | fuel + 1, expr, valued =>
    let run := evaluateValued program fuel
    match expr with
    -- Literals are scalars.
    | .literal value => ⟨(ConstValue.data value).heapIdx.isSome, .ok (.data value, valued)⟩
    | .strict op operands => do
        let target ← Run.ofExcept (targetOf op valued.interp.scope.locals)
        let (values, valued) ← valuedOperands run (acceptOperand op) 0 operands valued
        valued.apply program.fieldIndex op target values
    | .block stmts => valuedStmts run stmts (.data .unit) valued
    | .alloc name init => do
        let (value, valued) ← run init valued
        match name with
        | some name => pure (.data .unit, valued.extend (bind valued.interp.scope name value))
        | none => pure (.data .unit, valued)
    | .varRef name =>
      match lookup valued.interp.scope.locals name with
      | some value => pure (value, valued)
      | none =>
        match lookupType program valued.interp.typeOverrides name with
        | some ty => pure (.data (.type ty), valued)
        | none => Run.ofExcept (.error notConst)
    | .assign name value => do
        let (value, valued) ← run value valued
        pure (.data .unit, valued.extend (bind valued.interp.scope name value))
    | .branch cond thenBlock elseBlock => do
        match ← run cond valued with
        | (.data (.bool true), valued) => run thenBlock valued
        | (.data (.bool false), valued) =>
          match elseBlock with
          | some elseBlock => run elseBlock valued
          | none => pure (.data .unit, valued)
        | _ => Run.ofExcept (.error notConst)
    | .comptime expr => run expr valued
    | .loop cond body => do
        let (condition, valued) ← run cond valued
        if ← Run.ofExcept (asBool condition) then
          valuedIteration (run body) (run (.loop cond body)) valued
        else pure (.data .unit, valued)
    | .infiniteLoop body => valuedIteration (run body) (run (.infiniteLoop body)) valued
    | .break => pure (.breakSignal, valued)
    | .continue => pure (.continueSignal, valued)
    | .ret none => pure (.returnSignal, valued.returning (.data .unit))
    | .ret (some value) => do
        let (value, valued) ← run value valued
        pure (.returnSignal, valued.returning value)
    | .call name args =>
      match program.functions name with
      | none => Run.ofExcept (.error notConst)
      | some info => do
          let (values, valued) ← valuedOperands run acceptAll 0 args valued
          if callDepthLimit ≤ valued.interp.callDepth then
            Run.ofExcept (.error callDepthExceeded)
          else
            valuedBody run "function" info.body (callLocals info values) (typeOverridesOf info values) valued
    | .methodCall receiver method args => do
        let (self, valued) ← run receiver valued
        valued.read [self]
        let (structId, _) ← Run.ofExcept (getStruct valued.interp.scope.heap self)
        match program.methods structId method with
        | none => Run.ofExcept (.error notConst)
        | some info => do
            let (values, valued) ← valuedOperands run acceptAll 0 args valued
            if callDepthLimit ≤ valued.interp.callDepth then
              Run.ofExcept (.error methodDepthExceeded)
            else
              valuedBody run "method" info.body ((info.paramNames.zip values).reverse ++ [(program.selfName, self)])
                valued.interp.typeOverrides valued
    | .matchOn scrutinee arms => do
        let (scrutinee, valued) ← run scrutinee valued
        valued.read [scrutinee]
        valuedArms run scrutinee arms valued
    | .unsupported => Run.ofExcept (.error notConst)

end Comptime

end Gruel
