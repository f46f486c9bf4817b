import Gruel.LlvmTypesCore

/-!
Parameters and arguments. A source parameter occupies slots, counted by the type checker; the
code generator walks the slots again to declare LLVM parameters and to map each slot to one.
-/

namespace Gruel

namespace Params

inductive PassMode
  | normal | mutRef | ref
  deriving DecidableEq, Repr

def PassMode.isByRef : PassMode → Bool
  | .mutRef | .ref => true
  | .normal => false

/-- A parameter as resolved: a reference to an interface is the interface with a mode. -/
structure Param where
  ty : Ty
  mode : PassMode := .normal
  deriving DecidableEq, Repr

def abiSlotCount (pool : LayoutPool) (ty : Ty) : Nat := match ty with
  | .struct id =>
    ((pool.structDef id).fieldTypes.attach.map fun field => abiSlotCount pool field.1).sum % 2 ^ 32
  | .array id => abiSlotCount pool (pool.arrayDef id).1 * ((pool.arrayDef id).2 % 2 ^ 32) % 2 ^ 32
  | .unit | .never | .comptimeType | .comptimeStr | .comptimeInt | .module _ => 0
  | .slice _ | .mutSlice _ | .interface _ => 2
  | .vec _ => 3
  | _ => 1
termination_by pool.rank ty
decreasing_by
  · exact pool.rank_field id field.2
  · exact pool.rank_element id

attribute [grind =] abiSlotCount

@[simp]
theorem abiSlotCount_interface (pool : LayoutPool) (id : InterfaceId) : abiSlotCount pool (.interface id) = 2 := by
  simp [abiSlotCount]

@[simp]
theorem abiSlotCount_ref (pool : LayoutPool) (id : PointeeId) : abiSlotCount pool (.ref id) = 1 := by
  simp [abiSlotCount]

@[simp]
theorem abiSlotCount_mutRef (pool : LayoutPool) (id : PointeeId) : abiSlotCount pool (.mutRef id) = 1 := by
  simp [abiSlotCount]

section Slots

variable (pool : LayoutPool)

def Param.slotCount (param : Param) : Nat :=
  if param.mode.isByRef then 1 else abiSlotCount pool param.ty

def paramSlots : List Param → List Param
  | [] => []
  | param :: rest => List.replicate (param.slotCount pool) param ++ paramSlots rest

def abiSlot : List Param → Nat → Nat
  | [], _ => 0
  | _ :: _, 0 => 0
  | param :: rest, index + 1 => param.slotCount pool + abiSlot rest index

end Slots

def Param.isByRef (param : Param) : Bool := match param.ty with
  | .interface _ => false
  | .ref _ | .mutRef _ => true
  | _ => param.mode.isByRef

def Param.isFat (param : Param) : Bool := match param.ty with
  | .interface _ => param.mode.isByRef
  | _ => false

section Codegen

variable (pool : LayoutPool)

def collectParamTypes : List Param → List LlvmTy
  | [] => []
  | slot :: rest =>
    if slot.isByRef then .ptr :: collectParamTypes rest
    else
      let rawSlotCount := abiSlotCount pool slot.ty
      let own := if 0 < rawSlotCount then (gruelTypeToLlvm pool slot.ty).toList else []
      own ++ collectParamTypes (rest.drop (max rawSlotCount 1 - 1))
termination_by slots => slots.length

def slotTable : List Param → Nat → List Nat
  | [], _ => []
  | slot :: rest, llvmIdx =>
    if slot.isByRef then llvmIdx :: slotTable rest (llvmIdx + 1)
    else
      let rawSlotCount := abiSlotCount pool slot.ty
      let slotCount := max rawSlotCount 1
      llvmIdx :: (rest.take (slotCount - 1)).map (fun _ => llvmIdx) ++
        slotTable (rest.drop (slotCount - 1)) (if 0 < rawSlotCount then llvmIdx + 1 else llvmIdx)
termination_by slots => slots.length

def buildSlotToLlvmParam (slots : List Param) : List Nat := slotTable pool slots 0

inductive Projection
  | field (structId : StructId) (fieldIndex : Nat)
  | index (arrayType : Ty)

def Projection.containerTy : Projection → Ty
  | .field structId _ => .struct structId
  | .index arrayType => arrayType

def gruelToLlvmFieldIndex (structId : StructId) (fieldIndex : Nat) : Nat :=
  (((pool.structDef structId).fieldTypes.take fieldIndex).filterMap (gruelTypeToLlvm pool)).length

/-- The walk of `build_place_gep_chain` from a base pointer: `none` when it panics, `some none`
when a container has no LLVM type, and else the type of the place. -/
def gepWalk : Ty → List Projection → Option (Option Ty)
  | currentTy, [] => some (some currentTy)
  | currentTy, .field structId fieldIndex :: rest =>
    match gruelTypeToLlvm pool currentTy with
    | none => some none
    | some (.struct fields) =>
      if gruelToLlvmFieldIndex pool structId fieldIndex < fields.length then
        ((pool.structDef structId).fieldTypes[fieldIndex]?).bind fun ty => gepWalk ty rest
      else none
    | some _ => none
  | _, .index arrayType :: rest =>
    match arrayType, gruelTypeToLlvm pool arrayType with
    | .array id, some (.array ..) => gepWalk (pool.arrayDef id).1 rest
    | .array _, none => some none
    | _, _ => none

inductive Variable
  | localSlot (slot : Nat)
  | param (index : Nat)
  deriving DecidableEq, Repr

/-- Where values live in the frame of the calling function: the alloca of a local, the storage
a reference parameter points to, the spill slot and the LLVM argument of a by-value parameter,
and temporaries made for a call. -/
inductive Storage
  | alloca (slot : Nat)
  | received (index : Nat)
  | pslot (index : Nat)
  | argument (index : Nat)
  | temporary
  deriving DecidableEq, Repr

inductive ArgInst
  | load (slot : Nat)
  | param (index : Nat)
  | placeRead (base : Variable) (first : Projection) (rest : List Projection)
  | makeRef (base : Variable)
  | other

structure CallArg where
  inst : ArgInst
  ty : Ty
  mode : PassMode := .normal

inductive Operand
  | value (ty : LlvmTy)
  | address (storage : Storage)

def Operand.llvmTy : Operand → LlvmTy
  | .value ty => ty
  | .address _ => .ptr

/-- `None` stands for an index out of range, which by mode is not by reference. -/
def isParamByRef (slot : Option Param) : Bool := slot.any Param.isByRef

variable (caller : List Param)

def baseStorage : Variable → Storage
  | .localSlot slot => .alloca slot
  | .param index => if isParamByRef caller[index]? then .received index else .pslot index

def getValue (ty : Ty) : Option Operand := (gruelTypeToLlvm pool ty).map Operand.value

def borrowTmp (ty : Ty) : Option Operand := match ty with
  | .interface _ => getValue pool ty
  | _ => (gruelTypeToLlvm pool ty).map fun _ => .address .temporary

def lowerRefArg (arg : CallArg) : Option Operand := match arg.inst with
  | .load slot => (gruelTypeToLlvm pool arg.ty).map fun _ => .address (.alloca slot)
  | .param index =>
    if isParamByRef caller[index]? then some (.address (.received index))
    else borrowTmp pool arg.ty
  | .placeRead base first rest =>
    match gepWalk pool first.containerTy (first :: rest) with
    | some (some _) => some (.address (baseStorage caller base))
    -- Without a pointer the value itself is asked for, and there is none.
    | _ => none
  | .makeRef base => some (.address (baseStorage caller base))
  | .other => borrowTmp pool arg.ty

def lowerValueArg (arg : CallArg) (ty : LlvmTy) : Operand := match arg.inst with
  | .makeRef base => .address (baseStorage caller base)
  | _ => .value ty

def lowerArgs : List CallArg → Nat → Option (List (Nat × Operand))
  | [], _ => some []
  | arg :: rest, index =>
    if arg.mode.isByRef then
      (lowerRefArg pool caller arg).bind fun operand =>
        (lowerArgs rest (index + 1)).map fun operands => (index, operand) :: operands
    else
      (lowerArgs rest (index + 1)).map fun operands =>
        match gruelTypeToLlvm pool arg.ty with
        | none => operands
        | some ty => (index, lowerValueArg caller arg ty) :: operands

attribute [grind =] abiSlot paramSlots collectParamTypes slotTable lowerArgs

end Codegen

/-- A use of parameter `param`: its value, a place in it, or a write of the whole of it through
its reference.  `passedTy` is the type the lowering hands on for a place without projections. -/
inductive ParamUse
  | param (param : Nat)
  | place (param : Nat) (projections : List Projection) (passedTy : Ty)
  | store (param : Nat) (valueTy : Ty)

def ParamUse.index : ParamUse → Nat
  | .param index | .place index _ _ | .store index _ => index

structure ParamBlock where
  uses : List ParamUse
  succs : List Nat

structure Signature where
  params : List Param
  referent : PointeeId → Ty

def Signature.valueTy (signature : Signature) (param : Param) : Ty := match param.ty with
  | .ref id | .mutRef id => signature.referent id
  | ty => ty

inductive Instr
  | spill (slot llvmIdx : Nat) (fits : Bool)
  | readArgument (param llvmIdx : Nat)
  | throughArgument (param llvmIdx : Nat)
  | readSlot (param slot : Nat)

section Bodies

variable (pool : LayoutPool) (signature : Signature)

def baseTy (projections : List Projection) (passedTy : Ty) : Ty := match projections with
  | [] => passedTy
  | first :: _ => first.containerTy

def fitsIn (stored slotTy : LlvmTy) : Bool := stored.shape.size ≤ slotTy.shape.size

def nthParam (slot : Nat) : Option Nat :=
  ((buildSlotToLlvmParam pool (paramSlots pool signature.params))[slot]?).filter fun llvmIdx =>
    llvmIdx < (collectParamTypes pool (paramSlots pool signature.params)).length

def getOrCreateParamAlloca (allocas : List Nat) (slot : Nat) (ty : Ty) : Option (List Instr × List Nat) :=
  if slot ∈ allocas then some ([], allocas)
  else
    ((paramSlots pool signature.params)[slot]?).bind fun entry =>
      (gruelTypeToLlvm pool ty).bind fun slotTy =>
        (nthParam pool signature slot).map fun llvmIdx =>
          ([.spill slot llvmIdx (((gruelTypeToLlvm pool entry.ty).any fun stored => fitsIn stored slotTy))],
            slot :: allocas)

def readPlace (walk : Option (Option Ty)) (instr : Instr) : Option (List Instr) :=
  walk.map fun reached =>
    if (reached.bind (gruelTypeToLlvm pool)).isSome then [instr] else []

def lowerUse (allocas : List Nat) (use : ParamUse) : Option (List Instr × List Nat) :=
  let slot := abiSlot pool signature.params use.index
  let byRef := isParamByRef (paramSlots pool signature.params)[slot]?
  match use with
  | .param index =>
    (nthParam pool signature slot).bind fun llvmIdx =>
      if byRef then
        (((signature.params[index]?).map signature.valueTy).bind (gruelTypeToLlvm pool)).map fun _ =>
          ([.throughArgument index llvmIdx], allocas)
      else some ([.readArgument index llvmIdx], allocas)
  | .place index projections passedTy =>
    let base := baseTy projections passedTy
    if byRef then
      (nthParam pool signature slot).bind fun llvmIdx =>
        (readPlace pool (gepWalk pool base projections) (.throughArgument index llvmIdx)).map fun read =>
          (read, allocas)
    else
      (getOrCreateParamAlloca pool signature allocas slot base).bind fun (spill, allocas') =>
        (readPlace pool (gepWalk pool base projections) (.readSlot index slot)).map fun read =>
          (spill ++ read, allocas')
  | .store index valueTy =>
    (gruelTypeToLlvm pool valueTy).bind fun _ =>
      (nthParam pool signature slot).map fun llvmIdx => ([.throughArgument index llvmIdx], allocas)

def lowerUses : List Nat → List ParamUse → Option (List Instr × List Nat)
  | allocas, [] => some ([], allocas)
  | allocas, use :: rest =>
    (lowerUse pool signature allocas use).bind fun (code, allocas') =>
      (lowerUses allocas' rest).map fun (codes, allocas'') => (code ++ codes, allocas'')

def lowerBlocks : List Nat → List ParamBlock → Option (List (List Instr))
  | _, [] => some []
  | allocas, block :: rest =>
    (lowerUses pool signature allocas block.uses).bind fun (code, allocas') =>
      (lowerBlocks allocas' rest).map fun codes => code :: codes

def lowerBody (blocks : List ParamBlock) : Option (List (List Instr)) :=
  lowerBlocks pool signature [] blocks

end Bodies

/-- What a use finds: an LLVM argument as it is, the storage an argument points to, or memory that
holds nothing. -/
inductive Found
  | value (llvmIdx : Nat)
  | storage (llvmIdx : Nat)
  | undefined
  deriving DecidableEq, Repr

abbrev Cells := Nat → Option Nat

def execInstr (cells : Cells) : Instr → Cells × List (Nat × Found)
  | .spill slot llvmIdx fits =>
    (fun other => if other = slot then (if fits then some llvmIdx else none) else cells other, [])
  | .readArgument param llvmIdx => (cells, [(param, .value llvmIdx)])
  | .throughArgument param llvmIdx => (cells, [(param, .storage llvmIdx)])
  | .readSlot param slot => (cells, [(param, ((cells slot).map Found.value).getD .undefined)])

def exec (cells : Cells) : List Instr → Cells × List (Nat × Found)
  | [] => (cells, [])
  | instr :: rest =>
    let first := execInstr cells instr
    let others := exec first.1 rest
    (others.1, first.2 ++ others.2)

def IsPath (blocks : List ParamBlock) (path : List Nat) : Prop :=
  path.head? = some 0 ∧ (∀ number ∈ path, number < blocks.length) ∧
    path.IsChain fun before after => ∀ block, blocks[before]? = some block → after ∈ block.succs

def pathCode (code : List (List Instr)) (path : List Nat) : List Instr :=
  path.flatMap fun number => (code[number]?).getD []

end Params

end Gruel
