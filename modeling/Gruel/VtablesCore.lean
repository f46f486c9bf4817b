import Gruel.ParamsCore

/-!
Dynamic dispatch. The table of function pointers built for a struct and an interface, the
trampolines in it, and the call through it, beside the direct call of the struct's method.
-/

namespace Gruel

namespace Vtables

open Params (Param PassMode collectParamTypes paramSlots)
open ByteMemory (Memory)

inductive IfaceTy
  | selfType
  | concrete (ty : Ty)
  deriving DecidableEq, Repr

def IfaceTy.substituteSelf (candidate : Ty) : IfaceTy → Ty
  | .selfType => candidate
  | .concrete ty => ty

def IfaceTy.isSelf : IfaceTy → Bool
  | .selfType => true
  | .concrete _ => false

inductive ReceiverMode
  | byValue | mutRef | ref
  deriving DecidableEq, Repr

structure InterfaceMethodReq where
  name : String
  receiver : ReceiverMode
  paramTypes : List IfaceTy
  returnType : IfaceTy

structure FnType where
  params : List LlvmTy
  ret : Option LlvmTy

structure FnValue (Result : Type) where
  ty : FnType
  run : List LlvmVal → Memory → Option Result

variable {Result : Type}

def isPointerType : LlvmTy → Bool
  | .ptr => true
  | _ => false

def selfParam (structId : StructId) (selfRef : PointeeId) : ReceiverMode → Param
  | .byValue => ⟨.struct structId, .normal⟩
  | .mutRef => ⟨.mutRef selfRef, .normal⟩
  | .ref => ⟨.ref selfRef, .normal⟩

section Building

variable (pool : LayoutPool)

def declareMethod (structId : StructId) (selfRef : PointeeId) (req : InterfaceMethodReq) : FnType where
  params := collectParamTypes pool (paramSlots pool (selfParam structId selfRef req.receiver ::
    req.paramTypes.map fun ty => ⟨ty.substituteSelf (.struct structId), .normal⟩))
  ret := gruelTypeToLlvm pool (req.returnType.substituteSelf (.struct structId))

def alreadyTakesPtrSelf (actual : FnType) : Bool := actual.params.head?.any isPointerType

def needsTrampoline (structId : StructId) (actual : FnType) : Bool :=
  decide (0 < Params.abiSlotCount pool (.struct structId)) && !alreadyTakesPtrSelf actual

def emitVtableTrampoline (structId : StructId) (actual : FnValue Result) : Option (FnValue Result) :=
  (gruelTypeToLlvm pool (.struct structId)).map fun selfTy =>
    { ty := { params := .ptr :: actual.ty.params.drop 1, ret := actual.ty.ret }
      run := fun args memory =>
        match args with
        | .scalar data :: rest => actual.run (selfTy.load memory data :: rest) memory
        | _ => none }

def mangled (structName methodName : String) : String := structName ++ "." ++ methodName

def vtableSlot (structId : StructId) (fnMap : String → Option (FnValue Result))
    (req : InterfaceMethodReq) : Option (Option (FnValue Result)) :=
  match fnMap (mangled (pool.structDef structId).name req.name) with
  | none => some none
  | some actual =>
    if needsTrampoline pool structId actual.ty then
      (emitVtableTrampoline pool structId actual).map some
    else some (some actual)

def vtableSlots (structId : StructId) (fnMap : String → Option (FnValue Result))
    (witness : List (StructId × String)) :
    List InterfaceMethodReq → Nat → Option (List (Option (FnValue Result)))
  | [], _ => some []
  | req :: rest, slot =>
    match witness[slot]? with
    | none => none
    | some _ =>
      (vtableSlot pool structId fnMap req).bind fun entry =>
        (vtableSlots structId fnMap witness rest (slot + 1)).map fun entries => entry :: entries

def buildVtable (structId : StructId) (fnMap : String → Option (FnValue Result))
    (witness : List (StructId × String)) (methods : List InterfaceMethodReq) :
    Option (List (Option (FnValue Result))) :=
  if methods.isEmpty then some [none] else vtableSlots pool structId fnMap witness methods 0

def dataPtr (structId : StructId) (storage : Nat) : Nat :=
  match gruelTypeToLlvm pool (.struct structId) with
  | none => 0
  | some _ => storage

def dispatchType (interfaceId : InterfaceId) (req : InterfaceMethodReq) : FnType where
  params := .ptr :: req.paramTypes.filterMap fun ty =>
    gruelTypeToLlvm pool (ty.substituteSelf (.interface interfaceId))
  ret := gruelTypeToLlvm pool (req.returnType.substituteSelf (.interface interfaceId))

def gatherArgs : List (Option LlvmVal) → Option (List LlvmVal)
  | [] => some []
  | arg :: rest => arg.bind fun value => (gatherArgs rest).map fun values => value :: values

def dispatchArgs (data : Nat) (args : List (Option LlvmVal)) : Option (List LlvmVal) :=
  (gatherArgs args).map fun values => .scalar data :: values

def directArgs (structId : StructId) (receiver : ReceiverMode) (data : Nat)
    (args : List (Option LlvmVal)) (memory : Memory) : List LlvmVal :=
  (match receiver with
    | .byValue =>
      ((gruelTypeToLlvm pool (.struct structId)).map fun selfTy => selfTy.load memory data).toList
    | .mutRef | .ref => [.scalar data]) ++ args.filterMap id

end Building

inductive Owner
  | caller | method
  deriving DecidableEq, Repr

/-- Who owns the receiver once the method runs: the caller unless it has moved it, and a method
that takes it by value. -/
def ownersAfter (callerMoves : Bool) (receiver : ReceiverMode) : List Owner :=
  (if callerMoves then [] else [.caller]) ++ (if receiver = .byValue then [.method] else [])

def directOwners (receiver : ReceiverMode) : List Owner :=
  ownersAfter (decide (receiver = .byValue)) receiver

def dispatchOwners (receiver : ReceiverMode) : List Owner := ownersAfter false receiver

end Vtables

end Gruel
