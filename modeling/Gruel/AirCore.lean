import Gruel.Types

/-!
The analyzed intermediate representation as a tree, and its direct evaluation:
scalar values, locals, the trace of calls and fuelled loops.
-/

namespace Gruel

inductive BinOp
  | add | sub | mul | div | mod | eq | ne | lt | gt | le | ge
  | bitAnd | bitOr | bitXor | shl | shr
  deriving DecidableEq, Repr

inductive LogicOp
  | and | or
  deriving DecidableEq, Repr

inductive UnaryOp
  | neg | not | bitNot
  deriving DecidableEq, Repr

inductive MatchPattern
  | wildcard
  | int (value : Int)
  | bool (value : Bool)
  deriving DecidableEq, Repr

inductive Air
  | const (value : Int) (ty : Ty)
  | boolConst (value : Bool)
  | unitConst
  | param (index : Nat) (ty : Ty)
  | bin (op : BinOp) (lhs rhs : Air) (ty : Ty)
  | logic (op : LogicOp) (lhs rhs : Air)
  | unary (op : UnaryOp) (operand : Air) (ty : Ty)
  | alloc (slot : Nat) (init : Air)
  | load (slot : Nat) (ty : Ty)
  | store (slot : Nat) (value : Air) (hadLiveValue : Bool)
  | call (name : String) (args : List Air) (ty : Ty)
  | block (statements : List Air) (value : Air) (ty : Ty)
  | branch (cond thenValue : Air) (elseValue : Option Air) (ty : Ty)
  | loop (cond body : Air)
  | infiniteLoop (body : Air)
  | «match» (scrutinee : Air) (arms : List (MatchPattern × Air)) (ty : Ty)
  | «break»
  | «continue»
  | ret (value : Option Air)
  | storageLive (slot : Nat) (ty : Ty)
  | storageDead (slot : Nat)

namespace Air

def ty : Air → Ty
  | const _ ty | param _ ty | bin _ _ _ ty | unary _ _ ty | load _ ty | call _ _ ty
  | block _ _ ty | branch _ _ _ ty | «match» _ _ ty | storageLive _ ty => ty
  | boolConst _ | logic _ _ _ => .bool
  | unitConst | alloc _ _ | store _ _ _ | loop _ _ | storageDead _ => .unit
  | infiniteLoop _ | «break» | «continue» | ret _ => .never

def isStorageLive : Air → Bool
  | storageLive _ _ => true
  | _ => false

def branchResultType (thenValue : Air) (elseValue : Option Air) : Ty :=
  if thenValue.ty.isNever then (elseValue.map ty).getD .unit else thenValue.ty

def matchResultType (arms : List (MatchPattern × Air)) : Ty :=
  ((arms.map fun arm => arm.2.ty).find? fun ty => !ty.isNever).getD .never

end Air

def carriesValue (ty : Ty) : Bool := decide (ty ≠ .unit) && decide (ty ≠ .never)

inductive Scalar
  | unit
  | int (value : Int)
  | bool (value : Bool)
  deriving DecidableEq, Repr

structure CallEvent where
  name : String
  args : List Scalar
  deriving DecidableEq, Repr

/-- The meaning of the operators and of the functions called; `none` is a panic. -/
structure Semantics where
  bin : BinOp → Ty → Scalar → Scalar → Option Scalar
  unary : UnaryOp → Ty → Scalar → Option Scalar
  call : List CallEvent → String → List Scalar → Option Scalar

namespace Scalar

def ofConst (value : Int) (ty : Ty) : Scalar := if carriesValue ty then .int value else .unit

def joined (ty : Ty) (value : Scalar) : Scalar := if carriesValue ty then value else .unit

def asBool : Scalar → Option Bool
  | .bool value => some value
  | _ => none

def switchKey : Scalar → Option Int
  | .int value => some value
  | .bool value => some (if value then 1 else 0)
  | .unit => none

end Scalar

def Semantics.callResult (semantics : Semantics) (ty : Ty) (trace : List CallEvent)
    (name : String) (args : List Scalar) : Option Scalar :=
  (semantics.call trace name args).map (Scalar.joined ty)

namespace MatchPattern

def key : MatchPattern → Option Int
  | .wildcard => none
  | .int value => some value
  | .bool value => some (if value then 1 else 0)

def accepts (pattern : MatchPattern) (scrutinee : Int) : Bool := match pattern.key with
  | none => true
  | some value => decide (value = scrutinee)

end MatchPattern

namespace LogicOp

def decides : LogicOp → Bool
  | .and => false
  | .or => true

end LogicOp

inductive Outcome
  | value (value : Scalar)
  | «break»
  | «continue»
  | returned (value : Scalar)
  | panic
  | stuck
  | outOfFuel
  deriving DecidableEq, Repr

structure AirState where
  locals : Nat → Scalar
  trace : List CallEvent

def setLocal (locals : Nat → Scalar) (slot : Nat) (value : Scalar) : Nat → Scalar := fun other =>
  if other = slot then value else locals other

def AirState.set (state : AirState) (slot : Nat) (value : Scalar) : AirState :=
  { state with locals := setLocal state.locals slot value }

def ofOption (result : Option Scalar) : Outcome := match result with
  | some value => .value value
  | none => .panic

def andThen (first : Outcome × AirState) (next : Scalar → AirState → Outcome × AirState) : Outcome × AirState :=
  match first with
  | (.value value, state) => next value state
  | (outcome, state) => (outcome, state)

def afterBody (body : Outcome × AirState) (again : AirState → Outcome × AirState) : Outcome × AirState :=
  match body with
  | (.value _, state) => again state
  | (.continue, state) => again state
  | (.break, state) => (.value .unit, state)
  | (outcome, state) => (outcome, state)

def runWhile (cond body : AirState → Outcome × AirState) : Nat → AirState → Outcome × AirState
  | 0, state => (.outOfFuel, state)
  | fuel + 1, state =>
    andThen (cond state) fun decision state =>
      match decision.asBool with
      | none => (.stuck, state)
      | some false => (.value .unit, state)
      | some true => afterBody (body state) (runWhile cond body fuel)

def runForever (body : AirState → Outcome × AirState) : Nat → AirState → Outcome × AirState
  | 0, state => (.outOfFuel, state)
  | fuel + 1, state => afterBody (body state) (runForever body fuel)

inductive ArgsOutcome
  | values (values : List Scalar)
  | stopped (outcome : Outcome)

def afterArgs (evaluated : ArgsOutcome × AirState)
    (next : List Scalar → AirState → Outcome × AirState) : Outcome × AirState :=
  match evaluated with
  | (.values values, state) => next values state
  | (.stopped outcome, state) => (outcome, state)

section Evaluation

variable (semantics : Semantics) (arguments : List Scalar) (fuel : Nat)

mutual

def eval : Air → AirState → Outcome × AirState
  | .const value ty, state => (.value (.ofConst value ty), state)
  | .boolConst value, state => (.value (.bool value), state)
  | .unitConst, state => (.value .unit, state)
  | .param index _, state => (.value (arguments.getD index .unit), state)
  | .bin op lhs rhs ty, state =>
    andThen (eval lhs state) fun left state =>
      andThen (eval rhs state) fun right state =>
        (ofOption (semantics.bin op ty left right), state)
  | .logic op lhs rhs, state =>
    andThen (eval lhs state) fun left state =>
      match left.asBool with
      | none => (.stuck, state)
      | some decision =>
        if decision = op.decides then (.value (.bool decision), state) else eval rhs state
  | .unary op operand ty, state =>
    andThen (eval operand state) fun value state =>
      (ofOption (semantics.unary op ty value), state)
  | .alloc slot init, state =>
    andThen (eval init state) fun value state => (.value .unit, state.set slot value)
  | .load slot _, state => (.value (state.locals slot), state)
  | .store slot value _, state =>
    andThen (eval value state) fun stored state => (.value .unit, state.set slot stored)
  | .call name args ty, state =>
    afterArgs (evalArgs args state) fun values state =>
      (ofOption (semantics.callResult ty state.trace name values),
        { state with trace := state.trace ++ [⟨name, values⟩] })
  | .block statements value _, state =>
    andThen (evalStatements statements state) fun _ state => eval value state
  | .branch cond thenValue none _, state =>
    andThen (eval cond state) fun decision state =>
      match decision.asBool with
      | none => (.stuck, state)
      | some true =>
        andThen (eval thenValue state) fun value state =>
          (.value (value.joined (Air.branchResultType thenValue none)), state)
      | some false => (.value .unit, state)
  | .branch cond thenValue (some elseValue) _, state =>
    andThen (eval cond state) fun decision state =>
      match decision.asBool with
      | none => (.stuck, state)
      | some true =>
        andThen (eval thenValue state) fun value state =>
          (.value (value.joined (Air.branchResultType thenValue (some elseValue))), state)
      | some false =>
        andThen (eval elseValue state) fun value state =>
          (.value (value.joined (Air.branchResultType thenValue (some elseValue))), state)
  | .loop cond body, state => runWhile (eval cond) (eval body) fuel state
  | .infiniteLoop body, state => runForever (eval body) fuel state
  | .match scrutinee arms _, state =>
    andThen (eval scrutinee state) fun value state =>
      match value.switchKey with
      | none => (.stuck, state)
      | some key =>
        andThen (evalArms key arms state) fun value state =>
          (.value (value.joined (Air.matchResultType arms)), state)
  | .break, state => (.break, state)
  | .continue, state => (.continue, state)
  | .ret none, state => (.returned .unit, state)
  | .ret (some value), state =>
    andThen (eval value state) fun returned state => (.returned returned, state)
  | .storageLive _ _, state => (.value .unit, state)
  | .storageDead _, state => (.value .unit, state)

def evalArgs : List Air → AirState → ArgsOutcome × AirState
  | [], state => (.values [], state)
  | arg :: args, state =>
    match eval arg state with
    | (.value value, state) =>
      match evalArgs args state with
      | (.values values, state) => (.values (value :: values), state)
      | stopped => stopped
    | (outcome, state) => (.stopped outcome, state)

def evalStatements : List Air → AirState → Outcome × AirState
  | [], state => (.value .unit, state)
  | statement :: statements, state =>
    andThen (eval statement state) fun _ state => evalStatements statements state

def evalArms (key : Int) : List (MatchPattern × Air) → AirState → Outcome × AirState
  | [], state => (.stuck, state)
  | (pattern, body) :: arms, state =>
    if pattern.accepts key then eval body state else evalArms key arms state

end

end Evaluation

end Gruel
