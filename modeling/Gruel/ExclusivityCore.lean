import Gruel.Types

/-!
Calls with their operands as written: the exclusivity check on the roots of the
explicit arguments, the paths that make it, and the analysis of a body.
-/

namespace Gruel.Exclusivity

inductive ValueKind
  | copy
  | owned
  | ref
  | mutRef
  | slice
  | mutSlice
  deriving DecidableEq, Repr

inductive ArgMode
  | normal
  | ref
  | mutRef
  deriving DecidableEq, Repr

inductive ReceiverMode
  | byValue
  | ref
  | mutRef
  deriving DecidableEq, Repr

inductive Want
  | value
  | ref
  | mutRef
  deriving DecidableEq, Repr

inductive Role
  | receiver (mode : ReceiverMode)
  | arg (mode : ArgMode) (want : Want)
  deriving DecidableEq, Repr

inductive CallPath
  | call
  | callSugar
  | moduleMember
  | structMethod
  | enumMethod
  | interfaceMethod
  | valueMethod
  | vecMethod
  | structAssoc
  | enumAssoc
  | vecStatic
  | operator
  | spawn
  deriving DecidableEq, Repr

def CallPath.checksExclusivity : CallPath → Bool
  | .call | .callSugar | .structMethod | .enumMethod | .interfaceMethod | .structAssoc => true
  | .moduleMember | .valueMethod | .vecMethod | .enumAssoc | .vecStatic | .operator | .spawn => false

/-- Expressions by what they do with places. A projection is a field or an element of its base; a
choice hands on the value of one of its parts, as the tail of a block or an arm does; an aggregate
holds the values of its parts; a `fresh` value holds none of them. -/
inductive Expr
  | var (name : String)
  | project (base : Expr) (kind : ValueKind)
  | makeRef (isMut : Bool) (operand : Expr)
  | makeSlice (isMut : Bool) (base : Expr) (bounds : List Expr)
  | call (path : CallPath) (roles : List Role) (operands : List Expr) (kind : ValueKind)
  | choice (parts values : List Expr)
  | aggregate (parts : List Expr)
  | fresh (parts : List Expr)

inductive SemaError
  | inoutNonLvalue
  | borrowNonLvalue
  | inoutExclusiveAccess (root : String)
  | borrowInoutConflict (root : String)
  | other (message : String)
  deriving DecidableEq, Repr

structure CallArg where
  value : Expr
  mode : ArgMode

def extractRootVariable : Expr → Option String
  | .var name => some name
  | .project base _ => extractRootVariable base
  | _ => none

def classifyBorrowingArg (arg : CallArg) : Bool × Bool := match arg.mode with
  | .mutRef => (true, false)
  | .ref => (false, true)
  | .normal =>
    match arg.value with
    | .makeRef isMut _ => (isMut, !isMut)
    | _ => (false, false)

def extractBorrowingRootVariable : Expr → Option String
  | .makeRef _ operand => extractRootVariable operand
  | expr => extractRootVariable expr

def checkLvalue (arg : CallArg) : Except SemaError Unit :=
  if arg.mode = .mutRef ∧ extractRootVariable arg.value = none then .error .inoutNonLvalue
  else if arg.mode = .ref ∧ extractRootVariable arg.value = none then .error .borrowNonLvalue
  else .ok ()

def checkArgs (inoutVars borrowVars : List String) : List CallArg → Except SemaError Unit
  | [] => .ok ()
  | arg :: args => do
      checkLvalue arg
      match extractBorrowingRootVariable arg.value with
      | none => checkArgs inoutVars borrowVars args
      | some root =>
        let (isInoutLike, isBorrowLike) := classifyBorrowingArg arg
        if isInoutLike then
          if root ∈ inoutVars then throw (.inoutExclusiveAccess root)
          else if root ∈ borrowVars then throw (.borrowInoutConflict root)
          else checkArgs (root :: inoutVars) borrowVars args
        else if isBorrowLike then
          if root ∈ inoutVars then throw (.borrowInoutConflict root)
          else checkArgs inoutVars (root :: borrowVars) args
        else checkArgs inoutVars borrowVars args

def checkExclusiveAccess (args : List CallArg) : Except SemaError Unit := checkArgs [] [] args

def explicitArg (operand : Role × Expr) : Option CallArg := match operand.1 with
  | .receiver _ => none
  | .arg mode _ => some ⟨operand.2, mode⟩

section Analysis

-- The rest of the analysis of an expression: moves, mutability and types.
variable (admits : Expr → Except SemaError Unit)

def analyzeCall (path : CallPath) (operands : List (Role × Expr)) : Except SemaError Unit :=
  if path.checksExclusivity then checkExclusiveAccess (operands.filterMap explicitArg)
  else .ok ()

mutual

def analyzeInst : Expr → Except SemaError Unit
  | .var name => admits (.var name)
  | .project base kind => do
      analyzeInst base
      admits (.project base kind)
  | .makeRef isMut operand => do
      if extractRootVariable operand = none then
        throw (if isMut then .inoutNonLvalue else .borrowNonLvalue)
      analyzeInst operand
      admits (.makeRef isMut operand)
  | .makeSlice isMut base bounds => do
      if extractRootVariable base = none then
        throw (if isMut then .inoutNonLvalue else .borrowNonLvalue)
      analyzeInst base
      analyzeInsts bounds
      admits (.makeSlice isMut base bounds)
  | .call path roles operands kind => do
      analyzeCall path (roles.zip operands)
      analyzeInsts operands
      admits (.call path roles operands kind)
  | .choice parts values => do
      analyzeInsts parts
      analyzeInsts values
      admits (.choice parts values)
  | .aggregate parts => do
      analyzeInsts parts
      admits (.aggregate parts)
  | .fresh parts => do
      analyzeInsts parts
      admits (.fresh parts)

def analyzeInsts : List Expr → Except SemaError Unit
  | [] => .ok ()
  | expr :: exprs => do
      analyzeInst expr
      analyzeInsts exprs

end

end Analysis

end Gruel.Exclusivity
