import Gruel.AirCore
import Gruel.Lib.Placing
import Gruel.Lib.Simulations

/-!
Expressions whose operands have effects, the AIR the analysis makes of them, and
what both do: the operations carried out, in order, and their operands.
-/

namespace Gruel.EvalOrder

open Placing Simulations
open Simulations.Action (resume ask modify inOrder whileRounds countedRounds beside readSlot writeSlot)

inductive Value
  | unit
  | int (value : Int)
  | bool (value : Bool)
  /-- The fields of a struct or tuple or the elements of an array. -/
  | aggregate (parts : List Value)
  | variant (tag : Nat) (payload : List Value)

inductive Projection
  | field (index : Nat)
  | index
  deriving DecidableEq, Repr

/-- What is done with operands once they are evaluated. A method is called with its receiver as the
first argument; a place is a variable and a path, and the operands are its indices (then the bounds
of a slice). -/
inductive Operation
  | call (name : String)
  | binary (op : BinOp)
  | unary (op : UnaryOp)
  | intrinsic (name : String)
  | arrayInit
  | makeRef (root : Nat) (path : List Projection) (isMut : Bool)
  | makeSlice (root : Nat) (path : List Projection) (hasLow hasHigh isMut : Bool)
  /-- Read at a path in the first operand. -/
  | project (path : List Projection)
  /-- Replace what is at a path in the first operand by the second one. -/
  | update (path : List Projection)
  deriving DecidableEq, Repr

inductive Pattern
  | wildcard
  | int (value : Int)
  | bool (value : Bool)
  | variant (tag : Nat) (bindings : List (Option Nat))
  deriving DecidableEq, Repr

inductive EachSource
  | array (length : Nat)
  | slice
  deriving DecidableEq, Repr

mutual

/-- Expressions; variables are the bindings that their names resolve to. -/
inductive Expr
  | const (value : Value)
  | varRef (id : Nat)
  | alloc (id : Nat) (init : Expr)
  | assign (id : Nat) (value : Expr)
  | operation (op : Operation) (operands : List Expr)
  | methodCall (receiver : Expr) (method : String) (args : List Expr)
  | tupleInit (elems : List Expr)
  | structInit (typeName : String) (inits : List FieldInit)
  | tupleVariant (tag : Nat) (args : List Expr)
  | structVariant (typeName variant : String) (inits : List FieldInit)
  | placeRead (root : Nat) (path : List Projection) (indices : List Expr)
  | placeAssign (root : Nat) (path : List Projection) (indices : List Expr) (value : Expr)
  | logical (op : LogicOp) (lhs rhs : Expr)
  | block (statements : List Expr) (value : Expr)
  | branch (cond thenBlock elseBlock : Expr)
  | branchOnly (cond thenBlock : Expr)
  | whileLoop (cond body : Expr)
  | infiniteLoop (body : Expr)
  | rangeFor (binding : Nat) (args : List Expr) (body : Expr)
  | eachFor (binding : Nat) (source : EachSource) (iterable body : Expr)
  | matchOn (scrutinee : Expr) (arms : List Arm)
  | breakLoop
  | continueLoop
  | ret (value : Expr)

inductive FieldInit
  | mk (name : String) (value : Expr)

inductive Arm
  | mk (pattern : Pattern) (body : Expr)

end

def FieldInit.name : FieldInit → String
  | .mk name _ => name

inductive Slot
  | local (id : Nat)
  | hidden (index : Nat)
  deriving DecidableEq, Repr

mutual

inductive Air
  | const (value : Value)
  | load (slot : Slot)
  | alloc (slot : Slot) (init : Air)
  | store (slot : Slot) (value : Air)
  | operation (op : Operation) (operands : List Air)
  /-- The fields are in declaration order; `sourceOrder` lists their indices as they were written. -/
  | structInit (fields : List Air) (sourceOrder : List Nat)
  | enumCreate (variantIndex : Nat) (fields : List Air)
  | placeRead (slot : Slot) (path : List Projection) (indices : List Air)
  | placeWrite (slot : Slot) (path : List Projection) (indices : List Air) (value : Air)
  | logic (op : LogicOp) (lhs rhs : Air)
  | block (statements : List Air) (value : Air)
  | branch (cond thenValue elseValue : Air)
  | branchOnly (cond thenValue : Air)
  | loop (cond body : Air)
  | infiniteLoop (body : Air)
  | matchOn (scrutinee : Air) (arms : List AirArm)
  | breakLoop
  | continueLoop
  | ret (value : Air)

inductive AirArm
  | mk (pattern : Pattern) (body : Air)

end

structure Fields where
  names : List String
  distinct : names.Nodup

structure Program where
  structs : String → Option Fields
  /-- The variants of an enum, with their index. -/
  enums : String → Option (String → Option (Nat × Fields))

inductive SemaError
  | unknownType (name : String)
  | unknownEnumType (name : String)
  | unknownVariant (enumName variantName : String)
  | unknownField (structName fieldName : String)
  | duplicateField (structName fieldName : String)
  | missingFields (structName : String) (missing : List String)
  | wrongArgumentCount (expected found : Nat)
  /-- The panic for a field without a value. -/
  | uninitializedField
  deriving DecidableEq, Repr

def checkFieldNames (structName : String) (declared : List String) :
    List String → List String → Except SemaError (List String)
  | seen, [] => .ok seen
  | seen, name :: names =>
    if name ∉ declared then .error (.unknownField structName name)
    else if name ∈ seen then .error (.duplicateField structName name)
    else checkFieldNames structName declared (name :: seen) names

def checkFieldInits (structName : String) (declared names : List String) : Except SemaError Unit := do
  let seen ← checkFieldNames structName declared [] names
  if names.length ≠ declared.length then
    throw (.missingFields structName (declared.filter (· ∉ seen)))

def declarationOrder {α : Type} (declared names : List String) (items : List α) : Except SemaError (List α) :=
  match collected (placed declared.length (names.map declared.idxOf) items) with
  | some fields => .ok fields
  | none => .error .uninitializedField

def counterRounds (counter binding : Nat) (stop element stride body : Air) : Air :=
  .loop (.operation (.binary .lt) [.load (.hidden counter), stop]) (.block [.alloc (.local binding) element,
        .store (.hidden counter) (.operation (.binary .add) [.load (.hidden counter), stride])]
      body)

def counterLoop (spill : List Air) (counter binding : Nat) (start stop element stride body : Air) : Air :=
  .block (spill ++ [.alloc (.hidden counter) start]) (counterRounds counter binding stop element stride body)

section Analysis

variable (program : Program)

mutual

def analyzeInst : Expr → Nat → Except SemaError (Air × Nat)
  | .const value, next => .ok (.const value, next)
  | .varRef id, next => .ok (.load (.local id), next)
  | .alloc id init, next => do
      let (init, next) ← analyzeInst init next
      return (.alloc (.local id) init, next)
  | .assign id value, next => do
      let (value, next) ← analyzeInst value next
      return (.store (.local id) value, next)
  | .operation op operands, next => do
      let (operands, next) ← analyzeInsts operands next
      return (.operation op operands, next)
  | .methodCall receiver method args, next => do
      let (receiver, next) ← analyzeInst receiver next
      let (args, next) ← analyzeInsts args next
      return (.operation (.call method) (receiver :: args), next)
  | .tupleInit elems, next => do
      let (elems, next) ← analyzeInsts elems next
      return (.structInit elems (List.range elems.length), next)
  | .structInit typeName inits, next =>
    match program.structs typeName with
    | none => .error (.unknownType typeName)
    | some declared => do
        let names := inits.map FieldInit.name
        checkFieldInits typeName declared.names names
        let (values, next) ← analyzeFieldInits inits next
        let fields ← declarationOrder declared.names names values
        return (.structInit fields (names.map declared.names.idxOf), next)
  | .tupleVariant tag args, next => do
      let (args, next) ← analyzeInsts args next
      return (.enumCreate tag args, next)
  | .structVariant typeName variantName inits, next =>
    match program.enums typeName with
    | none => .error (.unknownEnumType typeName)
    | some findVariant =>
      match findVariant variantName with
      | none => .error (.unknownVariant typeName variantName)
      | some (variantIndex, declared) => do
          let names := inits.map FieldInit.name
          checkFieldInits (typeName ++ "::" ++ variantName) declared.names names
          let (values, next) ← analyzeFieldInits inits next
          let fields ← declarationOrder declared.names names values
          -- Unlike a struct, an enum is created without its source order.
          return (.enumCreate variantIndex fields, next)
  | .placeRead root path indices, next => do
      let (indices, next) ← analyzeInsts indices next
      return (.placeRead (.local root) path indices, next)
  | .placeAssign root path indices value, next => do
      let (indices, next) ← analyzeInsts indices next
      let (value, next) ← analyzeInst value next
      return (.placeWrite (.local root) path indices value, next)
  | .logical op lhs rhs, next => do
      let (lhs, next) ← analyzeInst lhs next
      let (rhs, next) ← analyzeInst rhs next
      return (.logic op lhs rhs, next)
  | .block statements value, next => do
      let (statements, next) ← analyzeInsts statements next
      let (value, next) ← analyzeInst value next
      return (.block statements value, next)
  | .branch cond thenBlock elseBlock, next => do
      let (cond, next) ← analyzeInst cond next
      let (thenValue, next) ← analyzeInst thenBlock next
      let (elseValue, next) ← analyzeInst elseBlock next
      return (.branch cond thenValue elseValue, next)
  | .branchOnly cond thenBlock, next => do
      let (cond, next) ← analyzeInst cond next
      let (thenValue, next) ← analyzeInst thenBlock next
      return (.branchOnly cond thenValue, next)
  | .whileLoop cond body, next => do
      let (cond, next) ← analyzeInst cond next
      let (body, next) ← analyzeInst body next
      return (.loop cond body, next)
  | .infiniteLoop body, next => do
      let (body, next) ← analyzeInst body next
      return (.infiniteLoop body, next)
  | .rangeFor binding [stop] body, next => do
      let (stop, counter) ← analyzeInst stop next
      let (body, next) ← analyzeInst body (counter + 1)
      return (counterLoop [] counter binding (.const (.int 0)) stop (.load (.hidden counter))
        (.const (.int 1)) body, next)
  | .rangeFor binding [start, stop] body, next => do
      let (stop, next) ← analyzeInst stop next
      let (start, counter) ← analyzeInst start next
      let (body, next) ← analyzeInst body (counter + 1)
      return (counterLoop [] counter binding start stop (.load (.hidden counter)) (.const (.int 1)) body, next)
  | .rangeFor binding [start, stop, stride] body, next => do
      let (stop, next) ← analyzeInst stop next
      let (start, next) ← analyzeInst start next
      let (stride, counter) ← analyzeInst stride next
      let (body, next) ← analyzeInst body (counter + 1)
      return (counterLoop [] counter binding start stop (.load (.hidden counter)) stride body, next)
  | .rangeFor _ args _, _ => .error (.wrongArgumentCount 1 args.length)
  | .eachFor binding (.array length) iterable body, next => do
      let (iterable, spilled) ← analyzeInst iterable next
      let counter := spilled + 1
      let (body, next) ← analyzeInst body (counter + 1)
      return (counterLoop [.alloc (.hidden spilled) iterable] counter binding (.const (.int 0))
        (.const (.int length)) (.placeRead (.hidden spilled) [.index] [.load (.hidden counter)])
        (.const (.int 1)) body, next)
  | .eachFor binding .slice iterable body, next => do
      let (iterable, spilled) ← analyzeInst iterable next
      let counter := spilled + 1
      let (body, next) ← analyzeInst body (counter + 1)
      return (counterLoop [.alloc (.hidden spilled) iterable] counter binding (.const (.int 0))
        (.operation (.intrinsic "slice_len") [.load (.hidden spilled)])
        (.operation (.intrinsic "slice_index_read")
          [.load (.hidden spilled), .load (.hidden counter)]) (.const (.int 1)) body, next)
  | .matchOn scrutinee arms, next => do
      let (scrutinee, next) ← analyzeInst scrutinee next
      let (arms, next) ← analyzeArms arms next
      return (.matchOn scrutinee arms, next)
  | .breakLoop, next => .ok (.breakLoop, next)
  | .continueLoop, next => .ok (.continueLoop, next)
  | .ret value, next => do
      let (value, next) ← analyzeInst value next
      return (.ret value, next)

def analyzeInsts : List Expr → Nat → Except SemaError (List Air × Nat)
  | [], next => .ok ([], next)
  | expr :: exprs, next => do
      let (air, next) ← analyzeInst expr next
      let (airs, next) ← analyzeInsts exprs next
      return (air :: airs, next)

def analyzeFieldInits : List FieldInit → Nat → Except SemaError (List Air × Nat)
  | [], next => .ok ([], next)
  | .mk _ value :: inits, next => do
      let (air, next) ← analyzeInst value next
      let (airs, next) ← analyzeFieldInits inits next
      return (air :: airs, next)

def analyzeArms : List Arm → Nat → Except SemaError (List AirArm × Nat)
  | [], next => .ok ([], next)
  | .mk pattern body :: arms, next => do
      let (body, next) ← analyzeInst body next
      let (arms, next) ← analyzeArms arms next
      return (.mk pattern body :: arms, next)

end

def analyzeBody (body : Expr) : Except SemaError Air := do
  let (air, _) ← analyzeInst program body 0
  return air

end Analysis

structure Effect where
  operation : Operation
  operands : List Value

structure Store (World : Type) where
  locals : Nat → Value
  world : World

structure State (World : Type) where
  store : Store World
  effects : List Effect

inductive Exit
  | broke
  | continued
  | returned (value : Value)
  | trapped
  | spent

structure Semantics (World : Type) where
  apply : Operation → List Value → Store World → Option Value × Store World

def loopExit : Exit → Action.Handling
  | .continued => .again
  | .broke => .leave
  | .returned _ | .trapped | .spent => .pass

def Pattern.matched : Pattern → Value → Option (List (Nat × Value))
  | .wildcard, _ => some []
  | .int expected, .int found => if expected = found then some [] else none
  | .bool expected, .bool found => if expected = found then some [] else none
  | .variant expected bindings, .variant tag payload =>
    if expected = tag then
      some ((bindings.zip payload).filterMap fun entry => entry.1.map (·, entry.2))
    else none
  | _, _ => none

def truth {S : Type} : Value → Action S Exit Bool
  | .bool value => pure value
  | _ => Action.throw .trapped

section Runs

variable {World : Type} (semantics : Semantics World)

def readLocal (id : Nat) : Action (State World) Exit Value := ask fun state => state.store.locals id

def writeLocal (id : Nat) (value : Value) : Action (State World) Exit Unit := modify fun state =>
    { state with
      store := { state.store with locals := Function.update state.store.locals id value } }

def bindAll : List (Nat × Value) → Action (State World) Exit Unit
  | [] => pure ()
  | (id, value) :: bindings => do
      writeLocal id value
      bindAll bindings

def carryOut (op : Operation) (operands : List Value) : Action (State World) Exit Value :=
  fun state =>
    let effects := state.effects ++ [⟨op, operands⟩]
    match semantics.apply op operands state.store with
    | (some value, store) => (.ok value, { store, effects })
    | (none, store) => (.error .trapped, { store, effects })

def logicallyThen {S : Type} (op : LogicOp) (lhs : Value) (rhs : Action S Exit Value) : Action S Exit Value := do
  match op, ← truth lhs with
  | .and, true | .or, false => rhs
  | .and, false => return .bool false
  | .or, true => return .bool true

/-- How to read what the language leaves to the statement of its order: every operand once and from
left to right, or as the loops over a range are desugared and array elements assigned. -/
inductive Reading
  | asWritten
  | desugared
  deriving DecidableEq, Repr

def fieldValues {S : Type} (declared names : List String) (values : List Value) : Action S Exit (List Value) :=
  match declared.mapM fun name => (names.zip values).lookup name with
  | some fields => pure fields
  | none => Action.throw .trapped

def counted (limit binding : Nat) (stop : Action (State World) Exit Value)
    (element : Value → Action (State World) Exit Value) (stride : Action (State World) Exit Value)
    (body : Action (State World) Exit Value) (start : Value) :
    Action (State World) Exit Value := do
  countedRounds loopExit .spent (fun counter => do
      let last ← stop
      let goes ← carryOut semantics (.binary .lt) [counter, last]
      truth goes)
    (fun counter => do
      let value ← element counter
      writeLocal binding value
      let step ← stride
      carryOut semantics (.binary .add) [counter, step])
    body limit start
  return .unit

def rangeRounds (reading : Reading) (limit binding : Nat) (start stop stride body : Action (State World) Exit Value) :
    Action (State World) Exit Value := do
  let first ← start
  match reading with
  | .asWritten => do
      let last ← stop
      let step ← stride
      counted semantics limit binding (pure last) pure (pure step) body first
  | .desugared => counted semantics limit binding stop pure stride body first

def eachRounds (limit binding : Nat) (iterable body : Action (State World) Exit Value) :
    EachSource → Action (State World) Exit Value
  | .array length => do
      let array ← iterable
      counted semantics limit binding (pure (.int length))
        (fun counter => carryOut semantics (.project [.index]) [array, counter])
        (pure (.int 1)) body (.int 0)
  | .slice => do
      let slice ← iterable
      counted semantics limit binding (carryOut semantics (.intrinsic "slice_len") [slice])
        (fun counter => carryOut semantics (.intrinsic "slice_index_read") [slice, counter])
        (pure (.int 1)) body (.int 0)

def replaceAt (root : Nat) (path : List Projection) (value : Value) (indices : List Value) :
    Action (State World) Exit Value := do
  let old ← readLocal root
  let new ← carryOut semantics (.update path) (old :: value :: indices)
  writeLocal root new
  return .unit

section Source

variable (program : Program) (reading : Reading) (limit : Nat)

mutual

def eval : Expr → Action (State World) Exit Value
  | .const value => pure value
  | .varRef id => readLocal id
  | .alloc id init => do
      writeLocal id (← eval init)
      return .unit
  | .assign id value => do
      writeLocal id (← eval value)
      return .unit
  | .operation op operands => do
      let values ← inOrder (evalEach operands)
      carryOut semantics op values
  | .methodCall receiver method args => do
      let self ← eval receiver
      let values ← inOrder (evalEach args)
      carryOut semantics (.call method) (self :: values)
  | .tupleInit elems => do
      let values ← inOrder (evalEach elems)
      return .aggregate values
  | .structInit typeName inits => do
      let values ← inOrder (evalInits inits)
      match program.structs typeName with
      | none => Action.throw .trapped
      | some declared => do
          let fields ← fieldValues declared.names (inits.map FieldInit.name) values
          return .aggregate fields
  | .tupleVariant tag args => do
      let values ← inOrder (evalEach args)
      return .variant tag values
  | .structVariant typeName variantName inits => do
      let values ← inOrder (evalInits inits)
      match (program.enums typeName).bind (· variantName) with
      | none => Action.throw .trapped
      | some (tag, declared) => do
          let fields ← fieldValues declared.names (inits.map FieldInit.name) values
          return .variant tag fields
  | .placeRead root path indices => do
      let values ← inOrder (evalEach indices)
      let whole ← readLocal root
      carryOut semantics (.project path) (whole :: values)
  | .placeAssign root path indices value =>
    match reading with
    | .asWritten => do
        let indices ← inOrder (evalEach indices)
        let value ← eval value
        replaceAt semantics root path value indices
    | .desugared => do
        let value ← eval value
        let indices ← inOrder (evalEach indices)
        replaceAt semantics root path value indices
  | .logical op lhs rhs => do
      let value ← eval lhs
      logicallyThen op value (eval rhs)
  | .block statements value => do
      let _ ← inOrder (evalEach statements)
      eval value
  | .branch cond thenBlock elseBlock => do
      if ← truth (← eval cond) then eval thenBlock else eval elseBlock
  | .branchOnly cond thenBlock => do
      if ← truth (← eval cond) then eval thenBlock else return .unit
  | .whileLoop cond body => do
      whileRounds loopExit .spent (eval cond >>= truth) (eval body) limit
      return .unit
  | .infiniteLoop body => do
      whileRounds loopExit .spent (pure true) (eval body) limit
      return .unit
  | .rangeFor binding [stop] body =>
    rangeRounds semantics reading limit binding (pure (.int 0)) (eval stop) (pure (.int 1)) (eval body)
  | .rangeFor binding [start, stop] body =>
    rangeRounds semantics reading limit binding (eval start) (eval stop) (pure (.int 1)) (eval body)
  | .rangeFor binding [start, stop, stride] body =>
    rangeRounds semantics reading limit binding (eval start) (eval stop) (eval stride) (eval body)
  | .rangeFor _ _ _ => Action.throw .trapped
  | .eachFor binding source iterable body =>
    eachRounds semantics limit binding (eval iterable) (eval body) source
  | .matchOn scrutinee arms => do
      let value ← eval scrutinee
      evalArms arms value
  | .breakLoop => Action.throw .broke
  | .continueLoop => Action.throw .continued
  | .ret value => do
      let value ← eval value
      Action.throw (.returned value)

def evalEach : List Expr → List (Action (State World) Exit Value)
  | [] => []
  | expr :: exprs => eval expr :: evalEach exprs

def evalInits : List FieldInit → List (Action (State World) Exit Value)
  | [] => []
  | .mk _ value :: inits => eval value :: evalInits inits

def evalArms : List Arm → Value → Action (State World) Exit Value
  | [], _ => Action.throw .trapped
  | .mk pattern body :: arms, value =>
    match pattern.matched value with
    | none => evalArms arms value
    | some bindings => do
        bindAll bindings
        eval body

end

end Source

abbrev Machine (World : Type) := State World × (Nat → Value)

section Execution

variable (limit : Nat)

def loadSlot : Slot → Action (Machine World) Exit Value
  | .local id => beside (readLocal id)
  | .hidden index => readSlot index

def storeSlot : Slot → Value → Action (Machine World) Exit Unit
  | .local id, value => beside (writeLocal id value)
  | .hidden index, value => writeSlot index value

mutual

def execute : Air → Action (Machine World) Exit Value
  | .const value => pure value
  | .load slot => loadSlot slot
  | .alloc slot init => do
      storeSlot slot (← execute init)
      return .unit
  | .store slot value => do
      storeSlot slot (← execute value)
      return .unit
  | .operation op operands => do
      let values ← inOrder (executeEach operands)
      beside (carryOut semantics op values)
  | .structInit fields sourceOrder => do
      let runs := executeEach fields
      let values ← inOrder (sourceOrder.map fun index => runs[index]?.getD (Action.throw .trapped))
      match collected (placed fields.length sourceOrder values) with
      | some fields => return .aggregate fields
      | none => Action.throw .trapped
  | .enumCreate variantIndex fields => do
      let values ← inOrder (executeEach fields)
      return .variant variantIndex values
  | .placeRead slot path indices => do
      let values ← inOrder (executeEach indices)
      let whole ← loadSlot slot
      beside (carryOut semantics (.project path) (whole :: values))
  -- The value is lowered first, before the old value is dropped.
  | .placeWrite slot path indices value => do
      let value ← execute value
      let indices ← inOrder (executeEach indices)
      let old ← loadSlot slot
      let new ← beside (carryOut semantics (.update path) (old :: value :: indices))
      storeSlot slot new
      return .unit
  | .logic op lhs rhs => do
      let value ← execute lhs
      logicallyThen op value (execute rhs)
  | .block statements value => do
      let _ ← inOrder (executeEach statements)
      execute value
  | .branch cond thenValue elseValue => do
      if ← truth (← execute cond) then execute thenValue else execute elseValue
  | .branchOnly cond thenValue => do
      if ← truth (← execute cond) then execute thenValue else return .unit
  | .loop cond body => do
      whileRounds loopExit .spent (execute cond >>= truth) (execute body) limit
      return .unit
  | .infiniteLoop body => do
      whileRounds loopExit .spent (pure true) (execute body) limit
      return .unit
  | .matchOn scrutinee arms => do
      let value ← execute scrutinee
      executeArms arms value
  | .breakLoop => Action.throw .broke
  | .continueLoop => Action.throw .continued
  | .ret value => do
      let value ← execute value
      Action.throw (.returned value)

def executeEach : List Air → List (Action (Machine World) Exit Value)
  | [] => []
  | air :: airs => execute air :: executeEach airs

def executeArms : List AirArm → Value → Action (Machine World) Exit Value
  | [], _ => Action.throw .trapped
  | .mk pattern body :: arms, value =>
    match pattern.matched value with
    | none => executeArms arms value
    | some bindings => do
        beside (bindAll bindings)
        execute body

end

attribute [grind =] execute

end Execution

end Runs

end Gruel.EvalOrder
