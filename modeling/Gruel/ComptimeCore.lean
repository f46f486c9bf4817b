import Gruel.AirCore

/-!
The compile-time interpreter, `evaluate_comptime_inst`.  Jumps travel as special
values: `break`, `continue` and `return` evaluate to a signal, and the returned value
waits in a slot on the side.
-/

namespace Gruel

namespace Comptime

abbrev Name := Nat

inductive Value
  | integer (value : BitVec 64)
  | bool (value : Bool)
  | type (ty : Ty)
  | unit
  | struct (heapIdx : Nat)
  | array (heapIdx : Nat)
  | comptimeStr (heapIdx : Nat)
  | enumVariant (enumId : EnumId) (variantIdx : Nat)
  | enumData (enumId : EnumId) (variantIdx heapIdx : Nat)
  | enumStruct (enumId : EnumId) (variantIdx heapIdx : Nat)
  deriving DecidableEq, Repr

inductive ConstValue
  | data (value : Value)
  | breakSignal
  | continueSignal
  | returnSignal
  deriving DecidableEq, Repr

inductive HeapItem (X : Type)
  | struct (structId : StructId) (fields : List X)
  | array (elems : List X)
  | enumData (fields : List X)
  | enumStruct (fields : List X)
  | string (text : String)
  deriving DecidableEq

structure Scope (X : Type) where
  locals : List (Name × X) := []
  heap : List (HeapItem X) := []
  deriving DecidableEq

inductive CompileError
  | failed (reason : String)
  | panic
  | outOfFuel
  deriving DecidableEq, Repr

def notConst : CompileError :=
  .failed "expression contains values that cannot be known at compile time"

class Operand (X : Type) where
  view : X → Option Value
  inject : Value → X

instance : Operand Value := ⟨some, id⟩

instance : Operand ConstValue where
  view
    | .data value => some value
    | _ => none
  inject := .data

inductive StrictOp
  | unary (op : UnaryOp)
  | bin (op : BinOp)
  | logic (op : LogicOp)
  | stringConst (text : String)
  | arrayInit
  | indexGet
  | indexSet (base : Name)
  -- Per initialiser, the declaration index of its field.
  | structInit (structId : StructId) (fieldCount : Nat) (places : List Nat)
  | fieldGet (field : Name)
  | fieldSet (base field : Name)
  | enumData (enumId : EnumId) (variantIdx : Nat)
  | enumStruct (enumId : EnumId) (variantIdx fieldCount : Nat) (places : List Nat)
  -- Per binding, the field it reads and the name it binds.
  | structDestructure (bindings : List (Name × Name))

section Operators

variable {X : Type} [Operand X]

def asInteger (operand : X) : Except CompileError (BitVec 64) := match Operand.view operand with
  | some (.integer value) => .ok value
  | _ => .error notConst

def asBool (operand : X) : Except CompileError Bool := match Operand.view operand with
  | some (.bool value) => .ok value
  | _ => .error notConst

def resolveComptimeStr (heap : List (HeapItem X)) (heapIdx : Nat) : Except CompileError String :=
  match heap[heapIdx]? with
  | some (.string text) => .ok text
  | some _ => .error notConst
  | none => .error .panic

def evalUnary (op : UnaryOp) (operand : X) : Except CompileError Value := match op with
  | .neg => do .ok (.integer (-(← asInteger operand)))
  | .not => do .ok (.bool !(← asBool operand))
  | .bitNot => do .ok (.integer (~~~(← asInteger operand)))

def evalEq (heap : List (HeapItem X)) (lhs rhs : X) : Except CompileError Bool :=
  match Operand.view lhs, Operand.view rhs with
  | some (.integer left), some (.integer right) => .ok (decide (left = right))
  | some (.bool left), some (.bool right) => .ok (decide (left = right))
  | some (.comptimeStr left), some (.comptimeStr right) => do
      .ok (decide ((← resolveComptimeStr heap left) = (← resolveComptimeStr heap right)))
  | some (.enumVariant leftEnum leftVariant), some (.enumVariant rightEnum rightVariant) =>
    .ok (decide (leftEnum = rightEnum ∧ leftVariant = rightVariant))
  | _, _ => .error notConst

def evalOrdering (heap : List (HeapItem X)) (lhs rhs : X) : Except CompileError Ordering :=
  match Operand.view lhs, Operand.view rhs with
  | some (.integer left), some (.integer right) => .ok (compare left.toInt right.toInt)
  | some (.comptimeStr left), some (.comptimeStr right) => do
      .ok (compare (← resolveComptimeStr heap left) (← resolveComptimeStr heap right))
  | _, _ => .error notConst

def shiftAmount (operand : X) : Except CompileError Nat := do
  let amount ← asInteger operand
  if 0 ≤ amount.toInt ∧ amount.toInt < 64 then .ok amount.toNat
  else .error (.failed "shift amount out of range in comptime evaluation")

def nonzero (what : String) (operand : X) : Except CompileError (BitVec 64) := do
  let divisor ← asInteger operand
  if divisor = 0 then .error (.failed (what ++ " by zero in comptime evaluation"))
  else .ok divisor

def evalBin (heap : List (HeapItem X)) (op : BinOp) (lhs rhs : X) : Except CompileError Value :=
  match op with
  | .add => do .ok (.integer ((← asInteger lhs) + (← asInteger rhs)))
  | .sub => do .ok (.integer ((← asInteger lhs) - (← asInteger rhs)))
  | .mul => do .ok (.integer ((← asInteger lhs) * (← asInteger rhs)))
  | .div => do
      let divisor ← nonzero "division" rhs
      .ok (.integer ((← asInteger lhs).sdiv divisor))
  | .mod => do
      let divisor ← nonzero "modulo" rhs
      .ok (.integer ((← asInteger lhs).srem divisor))
  | .eq => do .ok (.bool (← evalEq heap lhs rhs))
  | .ne => do .ok (.bool !(← evalEq heap lhs rhs))
  | .lt => do .ok (.bool ((← evalOrdering heap lhs rhs) == .lt))
  | .gt => do .ok (.bool ((← evalOrdering heap lhs rhs) == .gt))
  | .le => do .ok (.bool ((← evalOrdering heap lhs rhs) != .gt))
  | .ge => do .ok (.bool ((← evalOrdering heap lhs rhs) != .lt))
  | .bitAnd => do .ok (.integer ((← asInteger lhs) &&& (← asInteger rhs)))
  | .bitOr => do .ok (.integer ((← asInteger lhs) ||| (← asInteger rhs)))
  | .bitXor => do .ok (.integer ((← asInteger lhs) ^^^ (← asInteger rhs)))
  | .shl => do
      let amount ← shiftAmount rhs
      .ok (.integer ((← asInteger lhs) <<< amount))
  | .shr => do
      let amount ← shiftAmount rhs
      .ok (.integer ((← asInteger lhs).sshiftRight amount))

def evalLogic (op : LogicOp) (lhs rhs : X) : Except CompileError Value := match op with
  | .and => do if ← asBool lhs then .ok (.bool (← asBool rhs)) else .ok (.bool false)
  | .or => do if ← asBool lhs then .ok (.bool true) else .ok (.bool (← asBool rhs))

def indexInto (index : BitVec 64) (length : Nat) : Except CompileError Nat :=
  if 0 ≤ index.toInt ∧ index.toInt < length then .ok index.toNat
  else
    .error (.failed ("array index " ++ toString index.toInt ++ " out of bounds (length " ++ toString length ++ ")"))

def alloc (scope : Scope X) (item : HeapItem X) : Scope X :=
  { scope with heap := scope.heap ++ [item] }

def placeFields (fieldCount : Nat) (places : List Nat) (operands : List X) : List X :=
  (places.zip operands).foldl (fun fields entry => fields.set entry.1 entry.2)
    (List.replicate fieldCount (Operand.inject .unit))

def lookup (locals : List (Name × X)) (name : Name) : Option X :=
  (locals.find? fun entry => entry.1 == name).map Prod.snd

def bind (scope : Scope X) (name : Name) (operand : X) : Scope X :=
  { scope with locals := (name, operand) :: scope.locals }

abbrev FieldIndex := StructId → Name → Option Nat

def unknownField (field : Name) : CompileError :=
  .failed ("unknown field '" ++ toString field ++ "' in comptime struct")

def getStruct (heap : List (HeapItem X)) (operand : X) : Except CompileError (StructId × List X) :=
  match Operand.view operand with
  | some (.struct heapIdx) =>
    match heap[heapIdx]? with
    | some (.struct structId fields) => .ok (structId, fields)
    | some _ => .error notConst
    | none => .error .panic
  | _ => .error notConst

def getArray (heap : List (HeapItem X)) (operand : X) : Except CompileError (List X) :=
  match Operand.view operand with
  | some (.array heapIdx) =>
    match heap[heapIdx]? with
    | some (.array elems) => .ok elems
    | some _ => .error notConst
    | none => .error .panic
  | _ => .error notConst

def targetOf (op : StrictOp) (locals : List (Name × X)) : Except CompileError Nat := match op with
  | .fieldSet base _ =>
    match (lookup locals base).bind Operand.view with
    | some (.struct heapIdx) => .ok heapIdx
    | _ => .error notConst
  | .indexSet base =>
    match (lookup locals base).bind Operand.view with
    | some (.array heapIdx) => .ok heapIdx
    | _ => .error notConst
  | _ => .ok 0

def acceptOperand (op : StrictOp) (index : Nat) (operand : X) : Except CompileError Unit :=
  match op, index with
  | .indexSet _, 0 => do
      let _ ← asInteger operand
      .ok ()
  | _, _ => .ok ()

def orPanic {α : Type} : Option α → Except CompileError α
  | some result => .ok result
  | none => .error .panic

def orNotConst {α : Type} : Option α → Except CompileError α
  | some result => .ok result
  | none => .error notConst

def bindFields (fieldIndex : Name → Option Nat) (fields : List X) :
    List (Name × Name) → Scope X → Except CompileError (Scope X)
  | [], scope => .ok scope
  | (field, name) :: bindings, scope => do
      let index ← orNotConst (fieldIndex field)
      let operand ← orPanic fields[index]?
      bindFields fieldIndex fields bindings (bind scope name operand)

def applyOp (fieldIndex : FieldIndex) (op : StrictOp) (target : Nat) (scope : Scope X)
    (operands : List X) : Except CompileError (X × Scope X) :=
  match op, operands with
  | .unary op, [operand] => do .ok (Operand.inject (← evalUnary op operand), scope)
  | .bin op, [lhs, rhs] => do .ok (Operand.inject (← evalBin scope.heap op lhs rhs), scope)
  | .logic op, [lhs, rhs] => do .ok (Operand.inject (← evalLogic op lhs rhs), scope)
  | .stringConst text, [] =>
    .ok (Operand.inject (.comptimeStr scope.heap.length), alloc scope (.string text))
  | .arrayInit, elems =>
    .ok (Operand.inject (.array scope.heap.length), alloc scope (.array elems))
  | .indexGet, [base, index] => do
      let elems ← getArray scope.heap base
      let place ← indexInto (← asInteger index) elems.length
      .ok (← orPanic elems[place]?, scope)
  | .indexSet _, [index, operand] => do
      match scope.heap[target]? with
      | some (.array elems) =>
        let place ← indexInto (← asInteger index) elems.length
        .ok (Operand.inject .unit, { scope with heap := scope.heap.set target (.array (elems.set place operand)) })
      | some _ => .error notConst
      | none => .error .panic
  | .structInit structId fieldCount places, operands =>
    .ok (Operand.inject (.struct scope.heap.length),
      alloc scope (.struct structId (placeFields fieldCount places operands)))
  | .fieldGet field, [base] => do
      let (structId, fields) ← getStruct scope.heap base
      match fieldIndex structId field with
      | some index => do .ok (← orPanic fields[index]?, scope)
      | none => .error (unknownField field)
  | .fieldSet _ field, [operand] => do
      match scope.heap[target]? with
      | some (.struct structId fields) =>
        match fieldIndex structId field with
        | some index =>
          .ok (Operand.inject .unit, { scope with
              heap := scope.heap.set target (.struct structId (fields.set index operand)) })
        | none => .error (unknownField field)
      | some _ => .error notConst
      | none => .error .panic
  | .enumData enumId variantIdx, fields =>
    .ok (Operand.inject (.enumData enumId variantIdx scope.heap.length), alloc scope (.enumData fields))
  | .enumStruct enumId variantIdx fieldCount places, operands =>
    .ok (Operand.inject (.enumStruct enumId variantIdx scope.heap.length),
      alloc scope (.enumStruct (placeFields fieldCount places operands)))
  | .structDestructure bindings, [init] => do
      let (structId, fields) ← getStruct scope.heap init
      .ok (Operand.inject .unit, ← bindFields (fieldIndex structId) fields bindings scope)
  | _, _ => .error notConst

inductive Pattern
  | wildcard
  | int (value : BitVec 64)
  | bool (value : Bool)
  | path (enumId : EnumId) (variantIdx : Nat)
  -- A name per field that is bound.
  | dataVariant (enumId : EnumId) (variantIdx : Nat) (bindings : List (Option Name))
  | structVariant (enumId : EnumId) (variantIdx : Nat) (bindings : List (Nat × Name))
  -- A pattern whose enum or variant the interpreter does not find.
  | unresolved
  -- Identifier, tuple and struct patterns.
  | notProduced
  | comptimeUnrollArm
  deriving DecidableEq, Repr

def bindPositions (fields : List X) : List (Option Name) → Nat → Scope X → Except CompileError (Scope X)
  | [], _, scope => .ok scope
  | none :: bindings, index, scope => bindPositions fields bindings (index + 1) scope
  | some name :: bindings, index, scope => do
      let operand ← orPanic fields[index]?
      bindPositions fields bindings (index + 1) (bind scope name operand)

def bindIndexed (fields : List X) : List (Nat × Name) → Scope X → Except CompileError (Scope X)
  | [], scope => .ok scope
  | (index, name) :: bindings, scope => do
      let operand ← orPanic fields[index]?
      bindIndexed fields bindings (bind scope name operand)

def matchPattern (pattern : Pattern) (scrutinee : X) (scope : Scope X) : Except CompileError (Option (Scope X)) :=
  match pattern, Operand.view scrutinee with
  | .wildcard, _ => .ok (some scope)
  | .int expected, some (.integer value) => .ok (if value = expected then some scope else none)
  | .bool expected, some (.bool value) => .ok (if value = expected then some scope else none)
  | .path enumId variantIdx, some (.enumVariant otherId otherIdx)
  | .path enumId variantIdx, some (.enumData otherId otherIdx _)
  | .path enumId variantIdx, some (.enumStruct otherId otherIdx _) =>
    .ok (if otherId = enumId ∧ otherIdx = variantIdx then some scope else none)
  | .dataVariant enumId variantIdx bindings, some (.enumData otherId otherIdx heapIdx) =>
    if otherId = enumId ∧ otherIdx = variantIdx then
      match scope.heap[heapIdx]? with
      | some (.enumData fields) => do .ok (some (← bindPositions fields bindings 0 scope))
      | some _ => .error notConst
      | none => .error .panic
    else .ok none
  | .structVariant enumId variantIdx bindings, some (.enumStruct otherId otherIdx heapIdx) =>
    if otherId = enumId ∧ otherIdx = variantIdx then
      match scope.heap[heapIdx]? with
      | some (.enumStruct fields) => do .ok (some (← bindIndexed fields bindings scope))
      | some _ => .error notConst
      | none => .error .panic
    else .ok none
  | .notProduced, _ => .error .panic
  | .comptimeUnrollArm, _ =>
    .error (.failed "comptime_unroll for arm cannot be evaluated at comptime")
  | _, _ => .ok none

end Operators

inductive Expr
  | literal (value : Value)
  | strict (op : StrictOp) (operands : List Expr)
  | block (stmts : List Expr)
  | alloc (name : Option Name) (init : Expr)
  | varRef (name : Name)
  | assign (name : Name) (value : Expr)
  | branch (cond thenBlock : Expr) (elseBlock : Option Expr)
  | comptime (expr : Expr)
  | loop (cond body : Expr)
  | infiniteLoop (body : Expr)
  | break
  | continue
  | ret (value : Option Expr)
  | call (name : Name) (args : List Expr)
  | methodCall (receiver : Expr) (method : Name) (args : List Expr)
  | matchOn (scrutinee : Expr) (arms : List (Pattern × Expr))
  -- Constructs without a compile-time meaning.
  | unsupported

structure FnInfo where
  params : List (Name × Bool)
  isGeneric : Bool
  body : Expr

structure MethodInfo where
  paramNames : List Name
  body : Expr

structure Program where
  functions : Name → Option FnInfo
  methods : StructId → Name → Option MethodInfo
  fieldIndex : FieldIndex
  -- Names that stand for a type outside the function.
  typeNames : Name → Option Ty
  selfName : Name

def maxSteps : Nat := 1000000

def callDepthLimit : Nat := 64

def stepBudgetExceeded : CompileError :=
  .failed "comptime evaluation exceeded step budget of 1000000 iterations"

def callDepthExceeded : CompileError :=
  .failed "comptime call stack depth exceeded 64 levels (possible infinite recursion)"

def methodDepthExceeded : CompileError := .failed "comptime call stack depth exceeded 64 levels"

def missingReturn : CompileError := .failed "comptime return signal missing its value"

def jumpOutsideLoop (place : String) : CompileError :=
  .failed ("break/continue outside a loop in comptime " ++ place)

def noArmMatched : CompileError := .failed "no match arm matched in comptime evaluation"

def typeOverridesOf {X : Type} [Operand X] (info : FnInfo) (args : List X) : List (Name × Ty) :=
  if info.isGeneric then
    (info.params.zip args).reverse.filterMap fun entry =>
      match entry.1.2, Operand.view entry.2 with
      | true, some (.type ty) => some (entry.1.1, ty)
      | _, _ => none
  else []

def callLocals {X : Type} (info : FnInfo) (args : List X) : List (Name × X) :=
  ((info.params.zip args).filter fun entry => !entry.1.2).reverse.map fun entry =>
    (entry.1.1, entry.2)

def lookupType (program : Program) (typeOverrides : List (Name × Ty)) (name : Name) : Option Ty :=
  match (typeOverrides.find? fun entry => entry.1 == name).map Prod.snd with
  | some ty => some ty
  | none => program.typeNames name

structure Interp where
  scope : Scope ConstValue := {}
  steps : Nat := 0
  callDepth : Nat := 0
  typeOverrides : List (Name × Ty) := []
  returnValue : Option ConstValue := none

abbrev Step := Expr → Interp → Except CompileError (ConstValue × Interp)

def evalOperands (run : Step) (accept : Nat → ConstValue → Except CompileError Unit) :
    Nat → List Expr → Interp → Except CompileError (List ConstValue × Interp)
  | _, [], interp => .ok ([], interp)
  | index, operand :: operands, interp => do
      let (value, interp) ← run operand interp
      accept index value
      let (values, interp) ← evalOperands run accept (index + 1) operands interp
      .ok (value :: values, interp)

def acceptAll : Nat → ConstValue → Except CompileError Unit := fun _ _ => .ok ()

def evalStmts (run : Step) : List Expr → ConstValue → Interp → Except CompileError (ConstValue × Interp)
  | [], last, interp => .ok (last, interp)
  | stmt :: stmts, _, interp => do
      match ← run stmt interp with
      | (.data value, interp) => evalStmts run stmts (.data value) interp
      | (signal, interp) => .ok (signal, interp)

def evalArms (run : Step) (scrutinee : ConstValue) :
    List (Pattern × Expr) → Interp → Except CompileError (ConstValue × Interp)
  | [], _ => .error noArmMatched
  | (pattern, body) :: arms, interp => do
      match ← matchPattern pattern scrutinee interp.scope with
      | some scope => run body { interp with scope := scope }
      | none => evalArms run scrutinee arms interp

def finishCall (place : String) : ConstValue → Interp → Except CompileError (ConstValue × Interp)
  | .returnSignal, interp =>
    match interp.returnValue with
    | some value => .ok (value, { interp with returnValue := none })
    | none => .error missingReturn
  | .breakSignal, _ | .continueSignal, _ => .error (jumpOutsideLoop place)
  | value, interp => .ok (value, interp)

def runBody (run : Step) (place : String) (body : Expr) (locals : List (Name × ConstValue))
    (typeOverrides : List (Name × Ty)) (interp : Interp) :
    Except CompileError (ConstValue × Interp) := do
  let (value, after) ← run body { interp with
      scope := { interp.scope with locals := locals }
      typeOverrides := typeOverrides
      callDepth := interp.callDepth + 1 }
  finishCall place value { after with
      scope := { after.scope with locals := interp.scope.locals }
      typeOverrides := interp.typeOverrides
      callDepth := interp.callDepth }

def evaluateComptimeInst (program : Program) : Nat → Step
  | 0, _, _ => .error .outOfFuel
  | fuel + 1, expr, interp =>
    let run := evaluateComptimeInst program fuel
    match expr with
    | .literal value => .ok (.data value, interp)
    | .strict op operands => do
        let target ← targetOf op interp.scope.locals
        let (values, interp) ← evalOperands run (acceptOperand op) 0 operands interp
        let (value, scope) ← applyOp program.fieldIndex op target interp.scope values
        .ok (value, { interp with scope := scope })
    | .block stmts => evalStmts run stmts (.data .unit) interp
    | .alloc name init => do
        let (value, interp) ← run init interp
        match name with
        | some name => .ok (.data .unit, { interp with scope := bind interp.scope name value })
        | none => .ok (.data .unit, interp)
    | .varRef name =>
      match lookup interp.scope.locals name with
      | some value => .ok (value, interp)
      | none =>
        match lookupType program interp.typeOverrides name with
        | some ty => .ok (.data (.type ty), interp)
        | none => .error notConst
    | .assign name value => do
        let (value, interp) ← run value interp
        .ok (.data .unit, { interp with scope := bind interp.scope name value })
    | .branch cond thenBlock elseBlock => do
        match ← run cond interp with
        | (.data (.bool true), interp) => run thenBlock interp
        | (.data (.bool false), interp) =>
          match elseBlock with
          | some elseBlock => run elseBlock interp
          | none => .ok (.data .unit, interp)
        | _ => .error notConst
    | .comptime expr => run expr interp
    | .loop cond body => do
        let (condition, interp) ← run cond interp
        if ← asBool condition then
          let interp := { interp with steps := interp.steps + 1 }
          if maxSteps < interp.steps then .error stepBudgetExceeded
          else
            match ← run body interp with
            | (.breakSignal, interp) => .ok (.data .unit, interp)
            | (_, interp) => run (.loop cond body) interp
        else .ok (.data .unit, interp)
    | .infiniteLoop body => do
        let interp := { interp with steps := interp.steps + 1 }
        if maxSteps < interp.steps then .error stepBudgetExceeded
        else
          match ← run body interp with
          | (.breakSignal, interp) => .ok (.data .unit, interp)
          | (_, interp) => run (.infiniteLoop body) interp
    | .break => .ok (.breakSignal, interp)
    | .continue => .ok (.continueSignal, interp)
    | .ret none => .ok (.returnSignal, { interp with returnValue := some (.data .unit) })
    | .ret (some value) => do
        let (value, interp) ← run value interp
        .ok (.returnSignal, { interp with returnValue := some value })
    | .call name args =>
      match program.functions name with
      | none => .error notConst
      | some info => do
          let (values, interp) ← evalOperands run acceptAll 0 args interp
          if callDepthLimit ≤ interp.callDepth then .error callDepthExceeded
          else
            runBody run "function" info.body (callLocals info values) (typeOverridesOf info values) interp
    | .methodCall receiver method args => do
        let (self, interp) ← run receiver interp
        let (structId, _) ← getStruct interp.scope.heap self
        match program.methods structId method with
        | none => .error notConst
        | some info => do
            let (values, interp) ← evalOperands run acceptAll 0 args interp
            if callDepthLimit ≤ interp.callDepth then .error methodDepthExceeded
            else
              runBody run "method" info.body ((info.paramNames.zip values).reverse ++ [(program.selfName, self)])
                interp.typeOverrides interp
    | .matchOn scrutinee arms => do
        let (scrutinee, interp) ← run scrutinee interp
        evalArms run scrutinee arms interp
    | .unsupported => .error notConst

attribute [grind =] applyOp evaluateComptimeInst

def evaluateComptimeBlock (program : Program) (fuel : Nat) (expr : Expr)
    (captured : List (Name × ConstValue)) : Except CompileError ConstValue := do
  match ← evaluateComptimeInst program fuel expr { scope := { locals := captured } } with
  | (.breakSignal, _) | (.continueSignal, _) => .error (jumpOutsideLoop "block")
  | (.returnSignal, _) => .error (.failed "return outside a function in comptime block")
  | (value, _) => .ok value

end Comptime

end Gruel
