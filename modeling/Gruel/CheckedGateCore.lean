import Gruel.AirCore
import Gruel.Lib.Surviving

/-!
Calls and the `checked` gate: how each form of call finds its callee, which of
these paths consult `checked_depth`, and the analysis of a body with the depth
counter that survives errors.
-/

namespace Gruel.CheckedGate

open Surviving

structure FunctionInfo where
  params : Nat
  returnType : Ty
  isUnchecked : Bool

structure MethodInfo where
  hasSelf : Bool
  params : Nat
  runtimeParams : Nat
  isGeneric : Bool
  returnType : Ty
  isUnchecked : Bool

structure MethodReq where
  name : String
  params : Nat
  returnType : Ty
  isUnchecked : Bool

structure RegistryEntry where
  returnType : Ty
  requiresChecked : Bool

inductive Callee
  | function (name : String)
  | method (owner : StructId) (name : String)
  | enumMethod (owner : EnumId) (name : String)
  | interfaceMethod (interface : InterfaceId) (name : String)
  | pointerMethod (pointer : Ty) (name : String)
  | pointerFunction (pointer : Ty) (name : String)
  | sliceMethod (slice : Ty) (name : String)
  | charFromU32Unchecked
  | derivedClone (owner : StructId)
  | intrinsic (name : String)
  deriving DecidableEq, Repr

inductive Route
  | call
  | callSugar
  | moduleMember
  | structMethod
  | enumMethod
  | interfaceMethod
  | pointerMethod
  | sliceMethod
  | charHelper
  | vecMethod
  | vecStatic
  | vecIndex
  | derivedClone
  | structAssoc
  | enumAssoc
  | pointerAssoc
  | charUnchecked
  | operator
  | intrinsic
  | spawn
  | comptime
  deriving DecidableEq, Repr

inductive SemaError
  | undefinedFunction (name : String)
  | undefinedMethod (method : String)
  | undefinedAssocFn (function : String)
  | assocFnCalledAsMethod (function : String)
  | methodCalledAsAssocFn (method : String)
  | methodCallOnNonStruct (method : String)
  | wrongArgumentCount (expected found : Nat)
  | uncheckedCallRequiresChecked (callee : Callee)
  | intrinsicRequiresChecked (callee : Callee)
  | unknownType (name : String)
  | unknownIntrinsic (name : String)
  | typeMismatch (expected found : Ty)
  | typeMismatchWith (expected : String) (found : Ty)
  | chainedComparison
  | moveOutOfIndex (elem : Ty)
  | spawnFunctionNotFound (name : String)
  | spawnFunctionWrongArity (name : String) (arity : Nat)
  | notConst
  | other (message : String)
  deriving DecidableEq, Repr

structure Target where
  route : Route
  callee : Callee
  returnType : Ty
  /-- The argument counts that the callee takes; none where lowering checks the arguments. -/
  arities : List Nat
  deriving DecidableEq, Repr

inductive Dispatch
  | call (target : Target)
  | variant (ty : Ty) (fields : List Ty)
  /-- The receiver itself, or a cast of it. -/
  | value (ty : Ty)

inductive TypeCall
  | builtin (isVec : Bool) (resolved : Option Ty)
  | user (resolved : Option Ty)

/-- The declarations that calls are resolved in, and the checks of a call that do not concern the
gate: visibility, exclusivity, argument modes and types. -/
structure Sema where
  functions : String → Option FunctionInfo
  methods : StructId → String → Option MethodInfo
  enumMethods : EnumId → String → Option MethodInfo
  interfaceDefs : InterfaceId → List MethodReq
  pointerMethods : Ty → String → Option RegistryEntry
  pointerFunctions : Ty → String → Option RegistryEntry
  sliceMethods : Ty → String → Option RegistryEntry
  intrinsics : String → Option RegistryEntry
  structs : String → Option StructId
  enums : String → Option EnumId
  comptimeTypeVars : String → Option Ty
  typeCall : String → Option TypeCall
  /-- The fields of a variant that is built like a call. -/
  tupleVariant : EnumId → String → Option (List Ty)
  vecElem : PointeeId → Ty
  vecInstance : Ty → Option StructId
  isCopy : Ty → Bool
  isClone : StructId → Bool
  cloneBound : Bool
  eqMethod : String
  cmpMethod : String
  ordering : Option EnumId
  indexed : Ty → Except SemaError Ty
  joinHandle : Ty → Except SemaError Ty
  comptimeIntrinsic : String → List Ty → Except SemaError Ty
  admits : Callee → List Ty → Except SemaError Unit

/-- A body, with the type of the local or parameter that a called name also stands for. Everything
that is not a call analyzes its parts in order and finds its type from theirs. -/
inductive Expr
  | plain (parts : List Expr) (result : List Ty → Except SemaError Ty)
  | checked (body : Expr)
  | comptime (body : Expr) (result : Ty → Except SemaError Ty)
  | call (name : String) (callable : Option Ty) (args : List Expr)
  | methodCall (receiver : Expr) (method : String) (args : List Expr)
  | assocFnCall (typeName function : String) (args : List Expr)
  | comparison (op : BinOp) (lhs rhs : Expr)
  | indexGet (base index : Expr)
  | indexSet (base index value : Expr)
  | intrinsic (name : String) (args : List Expr)
  | spawn (function : String) (arg : Expr)

def Expr.isComparison : Expr → Bool
  | .comparison _ _ _ => true
  | _ => false

def MethodInfo.arities (info : MethodInfo) : List Nat :=
  if info.isGeneric then [info.params, info.runtimeParams] else [info.params]

namespace Sema

variable (sema : Sema)

def interfaceMethod (interface : InterfaceId) (method : String) : Option MethodReq :=
  (sema.interfaceDefs interface).find? fun req => req.name == method

def checkConforms (owner : StructId) (interface : InterfaceId) : Bool :=
  (sema.interfaceDefs interface).all fun req =>
    match sema.methods owner req.name with
    | some info =>
      info.hasSelf && info.isUnchecked == req.isUnchecked && info.params == req.params &&
        info.returnType == req.returnType
    | none => false

def isUnchecked : Callee → Bool
  | .function name => (sema.functions name).any FunctionInfo.isUnchecked
  | .method owner name => (sema.methods owner name).any MethodInfo.isUnchecked
  | .enumMethod owner name => (sema.enumMethods owner name).any MethodInfo.isUnchecked
  | .interfaceMethod interface name =>
    (sema.interfaceMethod interface name).any MethodReq.isUnchecked
  | .pointerMethod pointer name =>
    (sema.pointerMethods pointer name).any RegistryEntry.requiresChecked
  | .pointerFunction pointer name =>
    (sema.pointerFunctions pointer name).any RegistryEntry.requiresChecked
  | .sliceMethod slice name => (sema.sliceMethods slice name).any RegistryEntry.requiresChecked
  | .charFromU32Unchecked => true
  | .derivedClone _ => false
  | .intrinsic name => (sema.intrinsics name).any RegistryEntry.requiresChecked

def resolveFunction (route : Route) (name : String) : Except SemaError Target :=
  match sema.functions name with
  | some info => .ok ⟨route, .function name, info.returnType, [info.params]⟩
  | none => .error (.undefinedFunction name)

def resolveCall (name : String) (callable : Option Ty) : Except SemaError Target :=
  match sema.functions name, callable with
  | none, some (.struct owner) =>
    match sema.methods owner "__call" with
    | some info =>
      if info.hasSelf then
        .ok ⟨.callSugar, .method owner "__call", info.returnType, [info.params]⟩
      else .error (.assocFnCalledAsMethod "__call")
    | none => .error (.undefinedFunction name)
  | _, _ => sema.resolveFunction .call name

def resolveEnumMethod (owner : EnumId) (method : String) : Except SemaError Dispatch :=
  match sema.enumMethods owner method with
  | some info =>
    if info.hasSelf then
      .ok (.call ⟨.enumMethod, .enumMethod owner method, info.returnType, [info.params]⟩)
    else .error (.assocFnCalledAsMethod method)
  | none => .error (.undefinedMethod method)

def resolveInterfaceMethod (interface : InterfaceId) (method : String) : Except SemaError Dispatch :=
  match sema.interfaceMethod interface method with
  | some req =>
    .ok (.call ⟨.interfaceMethod, .interfaceMethod interface method, req.returnType, [req.params]⟩)
  | none => .error (.undefinedMethod method)

def resolvePointerMethod (pointer : Ty) (method : String) : Except SemaError Dispatch :=
  match sema.pointerMethods pointer method with
  | some entry =>
    .ok (.call ⟨.pointerMethod, .pointerMethod pointer method, entry.returnType, []⟩)
  | none => .error (.undefinedMethod method)

def resolveSliceMethod (slice : Ty) (method : String) : Except SemaError Dispatch :=
  match sema.sliceMethods slice method with
  | some entry =>
    .ok (.call ⟨.sliceMethod, .sliceMethod slice method, entry.returnType, [0]⟩)
  | none => .error (.undefinedMethod method)

def resolveCharMethod (method : String) (argCount : Nat) : Except SemaError Dispatch :=
  if method = "to_u32" then
    if argCount = 0 then .ok (.value .u32) else .error (.wrongArgumentCount 0 argCount)
  else if method ∈ ["is_ascii", "len_utf8", "encode_utf8"] then
    match sema.functions ("char__" ++ method) with
    | some info =>
      .ok (.call ⟨.charHelper, .function ("char__" ++ method), info.returnType,
        [if method = "encode_utf8" then 1 else 0]⟩)
    | none => .error (.other "prelude function not found")
  else .error (.undefinedMethod method)

def copyOnly : List String :=
  ["clone", "eq", "cmp", "contains", "starts_with", "ends_with", "concat", "extend_from_slice"]

def resolvePreludeVec (route : Route) (receiver elem : Ty) (method : String) : Except SemaError Target :=
  match sema.vecInstance elem with
  | some owner =>
    match sema.methods owner method with
    | some info =>
      if info.hasSelf then
        .ok ⟨route, .method owner method, if info.returnType = .struct owner then receiver else info.returnType,
          [info.params]⟩
      else .error (.undefinedMethod method)
    | none => .error (.undefinedMethod method)
  | none => .error (.undefinedMethod method)

def resolveVecMethod (vec : PointeeId) (method : String) : Except SemaError Target :=
  let elem := sema.vecElem vec
  if method ∈ copyOnly && !sema.isCopy elem then
    .error (.other "Vec method requires T: Copy")
  else sema.resolvePreludeVec .vecMethod (.vec vec) elem method

def resolveStructMethod (owner : StructId) (method : String) (argCount : Nat) : Except SemaError Dispatch :=
  match sema.methods owner method with
  | some info =>
    if info.hasSelf then
      .ok (.call ⟨.structMethod, .method owner method, info.returnType, info.arities⟩)
    else .error (.assocFnCalledAsMethod method)
  | none =>
    if sema.isClone owner && method == "clone" && argCount == 0 then
      .ok (.call ⟨.derivedClone, .derivedClone owner, .struct owner, [0]⟩)
    else .error (.undefinedMethod method)

def resolveMethod (receiver : Ty) (method : String) (argCount : Nat) : Except SemaError Dispatch :=
  match receiver with
  | .module _ => (sema.resolveFunction .moduleMember method).map .call
  | receiver =>
    if method == "clone" && argCount == 0 && sema.isCopy receiver && sema.cloneBound then
      .ok (.value receiver)
    else
      match receiver with
      | .enum owner => sema.resolveEnumMethod owner method
      | .interface interface => sema.resolveInterfaceMethod interface method
      | .ptrConst _ | .ptrMut _ => sema.resolvePointerMethod receiver method
      | .slice _ | .mutSlice _ => sema.resolveSliceMethod receiver method
      | .char => sema.resolveCharMethod method argCount
      | .vec vec => (sema.resolveVecMethod vec method).map .call
      | .struct owner => sema.resolveStructMethod owner method argCount
      | _ => .error (.methodCallOnNonStruct method)

def resolveEnumAssoc (owner : EnumId) (function : String) : Option (Except SemaError Dispatch) :=
  match sema.tupleVariant owner function with
  | some fields => some (.ok (.variant (.enum owner) fields))
  | none =>
    match sema.enumMethods owner function with
    | some info =>
      if info.hasSelf then some (.error (.methodCalledAsAssocFn function))
      else
        some (.ok (.call ⟨.enumAssoc, .enumMethod owner function, info.returnType, [info.params]⟩))
    | none => none

def resolveStructAssoc (owner : StructId) (function : String) : Except SemaError Dispatch :=
  match sema.methods owner function with
  | some info =>
    if info.hasSelf then .error (.methodCalledAsAssocFn function)
    else .ok (.call ⟨.structAssoc, .method owner function, info.returnType, [info.params]⟩)
  | none => .error (.undefinedAssocFn function)

def resolveVecStatic (vec : PointeeId) (function : String) : Except SemaError Dispatch :=
  match sema.vecInstance (sema.vecElem vec) with
  | some owner =>
    match sema.methods owner function with
    | some info =>
      if info.hasSelf then .error (.undefinedAssocFn function)
      else .ok (.call ⟨.vecStatic, .method owner function, .vec vec, [info.params]⟩)
    | none => .error (.undefinedAssocFn function)
  | none => .error (.undefinedAssocFn function)

def resolveCharAssoc (function : String) : Except SemaError Dispatch :=
  if function = "from_u32_unchecked" then
    .ok (.call ⟨.charUnchecked, .charFromU32Unchecked, .char, [1]⟩)
  else if function = "from_u32" then
    match sema.functions "char__from_u32" with
    | some info => .ok (.call ⟨.charHelper, .function "char__from_u32", info.returnType, [1]⟩)
    | none => .error (.other "prelude function `char__from_u32` not found")
  else .error (.undefinedFunction ("char::" ++ function))

def resolvePointerAssoc (typeName : String) (resolved : Option Ty) (function : String) : Except SemaError Dispatch :=
  match resolved with
  | some (.ptrConst pointee) => entry (.ptrConst pointee)
  | some (.ptrMut pointee) => entry (.ptrMut pointee)
  | _ => .error (.unknownType typeName)
where
  entry (pointer : Ty) : Except SemaError Dispatch :=
    match sema.pointerFunctions pointer function with
    | some entry =>
      .ok (.call ⟨.pointerAssoc, .pointerFunction pointer function, entry.returnType, []⟩)
    | none => .error (.undefinedMethod function)

def resolveNamedAssoc (typeName function : String) : Except SemaError Dispatch :=
  match (sema.enums typeName).bind fun owner => sema.resolveEnumAssoc owner function with
  | some dispatch => dispatch
  | none =>
    match sema.comptimeTypeVars typeName with
    | some (.vec vec) => sema.resolveVecStatic vec function
    | some (.struct owner) => sema.resolveStructAssoc owner function
    | some (.enum owner) =>
      match sema.resolveEnumAssoc owner function with
      | some dispatch => dispatch
      | none => .error (.typeMismatchWith "struct type" (.enum owner))
    | some ty => .error (.typeMismatchWith "struct type" ty)
    | none =>
      match sema.structs typeName with
      | some owner => sema.resolveStructAssoc owner function
      | none => .error (.unknownType typeName)

def resolveAssoc (typeName function : String) : Except SemaError Dispatch :=
  if typeName = "char" then sema.resolveCharAssoc function
  else
    match sema.typeCall typeName with
    | some (.builtin true (some (.vec vec))) => sema.resolveVecStatic vec function
    | some (.builtin _ resolved) => sema.resolvePointerAssoc typeName resolved function
    | some (.user (some (.struct owner))) => sema.resolveStructAssoc owner function
    | _ => sema.resolveNamedAssoc typeName function

def comparisonMethod (op : BinOp) : String :=
  if op = .eq ∨ op = .ne then sema.eqMethod else sema.cmpMethod

def lookupUserMethod (ty : Ty) (method : String) : Option (Callee × MethodInfo) := match ty with
  | .struct owner => (sema.methods owner method).map fun info => (.method owner method, info)
  | .enum owner =>
    (sema.enumMethods owner method).map fun info => (.enumMethod owner method, info)
  | _ => none

def resolveComparison (op : BinOp) (lhs : Ty) : Except SemaError (Option Target) := match lhs with
  | .vec vec =>
    (sema.resolveVecMethod vec (if op = .eq ∨ op = .ne then "eq" else "cmp")).map some
  | lhs =>
    if lhs.isNumeric || lhs == .bool || lhs == .char || lhs == .unit then .ok none
    else
      match sema.lookupUserMethod lhs (sema.comparisonMethod op) with
      | some (callee, info) => .ok (some ⟨.operator, callee, info.returnType, [1]⟩)
      | none =>
        if op = .eq ∨ op = .ne then .ok none
        else .error (.typeMismatchWith "a type that conforms to `Ord`" lhs)

def finishOperatorDispatch (op : BinOp) (returnType : Ty) : Except SemaError Ty :=
  if op = .eq ∨ op = .ne then
    if returnType = .bool then .ok .bool else .error (.typeMismatchWith "bool" returnType)
  else
    match sema.ordering with
    | some ordering =>
      if returnType = .enum ordering then .ok .bool
      else .error (.typeMismatchWith "Ordering" returnType)
    | none => .error (.other "Ordering enum not found (prelude not loaded?)")

def comparePlain (op : BinOp) (lhs : Ty) : Except SemaError Ty := if op = .eq ∨ op = .ne then
    if lhs.isNumeric || lhs == .bool || lhs == .char || lhs == .unit || lhs.asStruct.isSome then
      .ok .bool
    else .error (.typeMismatchWith "numeric, bool, char, unit, or struct" lhs)
  else if lhs.isNumeric || lhs == .char then .ok .bool
  else .error (.typeMismatchWith "numeric or char" lhs)

def resolveIndex (vec : PointeeId) (method : String) (returnType : Ty) : Except SemaError Target :=
  (sema.resolvePreludeVec .vecIndex (.vec vec) (sema.vecElem vec) method).map fun target =>
    { target with returnType := returnType }

def resolveIntrinsic (name : String) : Except SemaError Target := match sema.intrinsics name with
  | some entry => .ok ⟨.intrinsic, .intrinsic name, entry.returnType, []⟩
  | none => .error (.unknownIntrinsic name)

def resolveSpawn (function : String) : Except SemaError Target := match sema.functions function with
  | some info =>
    if info.params = 1 then .ok ⟨.spawn, .function function, info.returnType, [1]⟩
    else .error (.spawnFunctionWrongArity function info.params)
  | none => .error (.spawnFunctionNotFound function)

def resolveComptimeCall (name : String) : Except SemaError Target := match sema.functions name with
  | some info => .ok ⟨.comptime, .function name, info.returnType, [info.params]⟩
  | none => .error .notConst

def resolveComptimeMethod (receiver : Ty) (method : String) : Except SemaError Dispatch :=
  match receiver with
  | .comptimeStr => .ok (.value .comptimeStr)
  | .struct owner =>
    match sema.methods owner method with
    | some info => .ok (.call ⟨.comptime, .method owner method, info.returnType, [info.params]⟩)
    | none => .error .notConst
  | _ => .error .notConst

end Sema

inductive Gate
  | none
  | unchecked
  | intrinsic
  deriving DecidableEq, Repr

def Route.gate : Route → Gate
  | .call | .callSugar | .structMethod | .interfaceMethod | .pointerMethod | .structAssoc
  | .pointerAssoc | .charUnchecked => .unchecked
  | .sliceMethod | .intrinsic => .intrinsic
  | .moduleMember | .enumMethod | .charHelper | .vecMethod | .vecStatic | .vecIndex
  | .derivedClone | .enumAssoc | .operator | .spawn | .comptime => .none

abbrev Analysis (α : Type) := Action Nat SemaError α

section Analysis

variable (sema : Sema)

def enter (target : Target) : Analysis Unit := fun depth =>
  let outcome : Except SemaError Unit := if depth = 0 && sema.isUnchecked target.callee then
      match target.route.gate with
      | .none => .ok ()
      | .unchecked => .error (.uncheckedCallRequiresChecked target.callee)
      | .intrinsic => .error (.intrinsicRequiresChecked target.callee)
    else .ok ()
  (outcome, depth)

def finishCall (target : Target) (args : List Ty) : Except SemaError Ty := do
  if target.arities ≠ [] ∧ args.length ∉ target.arities then
    throw (.wrongArgumentCount (target.arities.headD 0) args.length)
  sema.admits target.callee args
  pure target.returnType

def emit (dispatch : Dispatch) (args : Analysis (List Ty)) : Analysis Ty := match dispatch with
  | .call target => do
      enter sema target
      let tys ← args
      fromExcept (finishCall sema target tys)
  | .variant ty fields => do
      let tys ← args
      if tys = fields then pure ty else throw (.wrongArgumentCount fields.length tys.length)
  | .value ty => do
      let _ ← args
      pure ty

mutual

/-- Compile-time evaluation, on the types of the values. It knows no checked blocks. -/
def evaluateComptimeInst : Expr → Except SemaError Ty
  | .plain parts result => do
      let tys ← evaluateComptimeInsts parts
      result tys
  | .checked _ => .error .notConst
  | .comptime body _ => evaluateComptimeInst body
  | .call name _ args => do
      let target ← sema.resolveComptimeCall name
      let _ ← evaluateComptimeInsts args
      pure target.returnType
  | .methodCall receiver method args => do
      let receiverTy ← evaluateComptimeInst receiver
      let dispatch ← sema.resolveComptimeMethod receiverTy method
      let _ ← evaluateComptimeInsts args
      match dispatch with
      | .call target => pure target.returnType
      | .variant ty _ | .value ty => pure ty
  | .assocFnCall typeName function args => do
      match (sema.enums typeName).or ((sema.comptimeTypeVars typeName).bind Ty.asEnum) with
      | some owner =>
        match sema.tupleVariant owner function with
        | some _ =>
          let _ ← evaluateComptimeInsts args
          pure (.enum owner)
        | none => .error .notConst
      | none => .error .notConst
  | .comparison _ lhs rhs => do
      let _ ← evaluateComptimeInst lhs
      let _ ← evaluateComptimeInst rhs
      pure .bool
  | .indexGet base index => do
      let baseTy ← evaluateComptimeInst base
      let _ ← evaluateComptimeInst index
      sema.indexed baseTy
  | .indexSet base index value => do
      let _ ← evaluateComptimeInst base
      let _ ← evaluateComptimeInst index
      let _ ← evaluateComptimeInst value
      pure .unit
  | .intrinsic name args => do
      let tys ← evaluateComptimeInsts args
      sema.comptimeIntrinsic name tys
  | .spawn _ _ => .error .notConst

def evaluateComptimeInsts : List Expr → Except SemaError (List Ty)
  | [] => pure []
  | expr :: exprs => do
      let ty ← evaluateComptimeInst expr
      let tys ← evaluateComptimeInsts exprs
      pure (ty :: tys)

end

mutual

def analyzeInst : Expr → Analysis Ty
  | .plain parts result => do
      let tys ← analyzeInsts parts
      fromExcept (result tys)
  -- `checked_depth += 1`, and `-= 1` also when the analysis of the body fails.
  | .checked body => bracket (· + 1) (· - 1) (analyzeInst body)
  | .comptime body result => do
      let ty ← fromExcept (evaluateComptimeInst sema body)
      fromExcept (result ty)
  | .call name callable args => do
      let target ← fromExcept (sema.resolveCall name callable)
      emit sema (.call target) (analyzeInsts args)
  | .methodCall receiver method args => do
      let receiverTy ← analyzeInst receiver
      let dispatch ← fromExcept (sema.resolveMethod receiverTy method args.length)
      emit sema dispatch (analyzeInsts args)
  | .assocFnCall typeName function args => do
      let dispatch ← fromExcept (sema.resolveAssoc typeName function)
      emit sema dispatch (analyzeInsts args)
  | .comparison op lhs rhs =>
    if lhs.isComparison then throw .chainedComparison
    else do
      let lhsTy ← analyzeInst lhs
      if lhsTy.isNever || lhsTy.isError then
        let _ ← analyzeInst rhs
        pure .bool
      else
        let target ← fromExcept (sema.resolveComparison op lhsTy)
        match target with
        | some target => do
            enter sema target
            let rhsTy ← analyzeInst rhs
            let ty ← fromExcept (finishCall sema target [rhsTy])
            fromExcept (sema.finishOperatorDispatch op ty)
        | none => do
            let _ ← analyzeInst rhs
            fromExcept (Sema.comparePlain op lhsTy)
  | .indexGet base index => do
      let baseTy ← analyzeInst base
      match baseTy with
      | .vec vec =>
        if sema.isCopy (sema.vecElem vec) then
          let indexTy ← analyzeInst index
          let target ← fromExcept (sema.resolveIndex vec "index_read" (sema.vecElem vec))
          enter sema target
          fromExcept (finishCall sema target [indexTy])
        else throw (.moveOutOfIndex (sema.vecElem vec))
      | baseTy =>
        let _ ← analyzeInst index
        fromExcept (sema.indexed baseTy)
  | .indexSet base index value => do
      let baseTy ← analyzeInst base
      let indexTy ← analyzeInst index
      let valueTy ← analyzeInst value
      match baseTy with
      | .vec vec =>
        let target ← fromExcept (sema.resolveIndex vec "index_write" .unit)
        enter sema target
        fromExcept (finishCall sema target [indexTy, valueTy])
      | baseTy =>
        let _ ← fromExcept (sema.indexed baseTy)
        pure .unit
  | .intrinsic name args => do
      let target ← fromExcept (sema.resolveIntrinsic name)
      emit sema (.call target) (analyzeInsts args)
  | .spawn function arg => do
      let target ← fromExcept (sema.resolveSpawn function)
      enter sema target
      let argTy ← analyzeInst arg
      let ty ← fromExcept (finishCall sema target [argTy])
      fromExcept (sema.joinHandle ty)

def analyzeInsts : List Expr → Analysis (List Ty)
  | [] => pure []
  | expr :: exprs => do
      let ty ← analyzeInst expr
      let tys ← analyzeInsts exprs
      pure (ty :: tys)

end

inductive Mode
  | runtime
  | comptime
  deriving DecidableEq, Repr

def analyzeBody : Mode → Expr → Except SemaError Ty
  | .runtime, body => (analyzeInst sema body).result 0
  | .comptime, body => evaluateComptimeInst sema body

end Analysis

end Gruel.CheckedGate
