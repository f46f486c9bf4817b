import Gruel.OwnershipCore

/-!
Drop glue: the functions `synthesize_drop_glue` writes for the types that need one,
and what running them does to a value.
-/

namespace Gruel

def asU32 (value : Nat) : Nat := value % 2 ^ 32

def abiSlotCount (pool : LayoutPool) (ty : Ty) : Nat :=
  match ty with
  | .struct id =>
    asU32 ((pool.structDef id).fieldTypes.attach.map fun field => abiSlotCount pool field.1).sum
  | .array id => asU32 (abiSlotCount pool (pool.arrayDef id).1 * asU32 (pool.arrayDef id).2)
  | .unit | .never | .comptimeType | .comptimeStr | .comptimeInt | .module _ => 0
  | .slice _ | .mutSlice _ | .interface _ => 2
  | .vec _ => 3
  | _ => 1
termination_by pool.rank ty
decreasing_by
  · exact pool.rank_field id field.2
  · exact pool.rank_element id

attribute [grind =] abiSlotCount

theorem abiSlotCount_struct (pool : LayoutPool) (id : StructId) : abiSlotCount pool (.struct id) =
      asU32 ((pool.structDef id).fieldTypes.map (abiSlotCount pool)).sum := by
  rw [abiSlotCount, List.attach_map_val]

inductive GlueOperand
  | param (index : Nat)
  | fieldGet (base : GlueOperand) (structId : StructId) (fieldIndex : Nat)
  | enumPayloadGet (base : GlueOperand) (variantIndex fieldIndex : Nat)
  deriving DecidableEq, Repr

structure GlueDrop where
  value : GlueOperand
  ty : Ty
  deriving DecidableEq, Repr

inductive GlueStmt
  | call (name : String) (arg : GlueOperand)
  | drop (part : GlueDrop)
  -- One arm per variant, in the order of the declaration.
  | matchVariant (scrutinee : GlueOperand) (arms : List (List GlueDrop))
  deriving DecidableEq, Repr

structure GlueFunction where
  body : List GlueStmt
  paramSlotTypes : List Ty
  deriving DecidableEq, Repr

def dropsOf (pool : LayoutPool) (part : Nat → GlueOperand) (tys : List Ty) : List GlueDrop :=
  (tys.zipIdx.filter fun entry => typeNeedsDrop pool entry.1).map fun entry =>
    ⟨part entry.2, entry.1⟩

def callDestructor (destructor : Option String) : List GlueStmt :=
  destructor.toList.map fun name => .call name (.param 0)

def createStructDropGlueFunction (pool : LayoutPool) (id : StructId) : GlueFunction where
  body := callDestructor (pool.structDef id).destructor ++
    (dropsOf pool (.fieldGet (.param 0) id) (pool.structDef id).fieldTypes).map .drop
  paramSlotTypes := List.replicate (abiSlotCount pool (.struct id)) (.struct id)

def elementDrop (elementType : Ty) (slot : Nat) : List GlueStmt :=
  match elementType with
  | .struct id => [.drop ⟨.param slot, .struct id⟩]
  | .array id => [.drop ⟨.param slot, .array id⟩]
  | _ => []

def createArrayDropGlueFunction (pool : LayoutPool) (id : ArrayTypeId) : GlueFunction :=
  let elementType := (pool.arrayDef id).1
  let length := (pool.arrayDef id).2
  let elementSlotCount := abiSlotCount pool elementType
  { body := (List.range length).flatMap fun index =>
      elementDrop elementType (asU32 (asU32 index * elementSlotCount))
    paramSlotTypes := List.replicate (asU32 (elementSlotCount * asU32 length)) elementType }

def createEnumDropGlueFunction (pool : LayoutPool) (id : EnumId) : GlueFunction where
  body := callDestructor (pool.enumDef id).destructor ++
    [.matchVariant (.param 0) ((pool.enumDef id).variants.zipIdx.map fun entry =>
      dropsOf pool (.enumPayloadGet (.param 0) entry.2) entry.1.fields)]
  paramSlotTypes := [.enum id]

def synthesizeDropGlue (pool : LayoutPool) (ty : Ty) : Option GlueFunction :=
  if typeNeedsDrop pool ty then
    match ty with
    | .struct id =>
      if (pool.structDef id).isBuiltin && (pool.structDef id).destructor.isSome then none
      else some (createStructDropGlueFunction pool id)
    | .enum id => some (createEnumDropGlueFunction pool id)
    | .array id => some (createArrayDropGlueFunction pool id)
    | _ => none
  else none

inductive Val
  | scalar
  | struct (fields : List Val)
  | array (elems : List Val)
  | enum (variant : Nat) (payload : List Val)
  | vec (capacity : Nat) (elems : List Val)

inductive PartStep
  | field (index : Nat)
  | payload (index : Nat)
  | element (index : Nat)
  deriving DecidableEq, Repr

inductive DropEffect
  | destructor (name : String) (path : List PartStep)
  | dropPart (path : List PartStep) (effects : List DropEffect)
  | free

def buildSlotToLlvmParam (pool : LayoutPool) (slotTypes : List Ty) (next : Nat) : List Nat :=
  match slotTypes with
  | [] => []
  | ty :: rest =>
    let rawSlotCount := abiSlotCount pool ty
    let slotCount := max rawSlotCount 1
    List.replicate (min slotCount (rest.length + 1)) next ++
      buildSlotToLlvmParam pool (rest.drop (slotCount - 1)) (if 0 < rawSlotCount then next + 1 else next)
termination_by slotTypes.length
decreasing_by simp only [List.length_drop, List.length_cons]; omega

structure GlueFrame where
  slotTable : List Nat
  params : List (Val × List PartStep)

namespace GlueFrame

def eval (frame : GlueFrame) : GlueOperand → Option (Val × List PartStep)
  | .param index => do frame.params[← frame.slotTable[index]?]?
  | .fieldGet base _ fieldIndex => do
      match ← frame.eval base with
      | (.struct fields, path) => some (← fields[fieldIndex]?, path ++ [.field fieldIndex])
      | _ => none
  | .enumPayloadGet base variantIndex fieldIndex => do
      match ← frame.eval base with
      | (.enum variant payload, path) =>
        if variant = variantIndex then
          some (← payload[fieldIndex]?, path ++ [.payload fieldIndex])
        else none
      | _ => none

end GlueFrame

def glueArgs : Val → List (Val × List PartStep)
  | .array elems => elems.zipIdx.map fun entry => (entry.1, [.element entry.2])
  | value => [(value, [])]

section Run

variable (pool : OwnershipPool) (dropChild : Ty → Val → Option (List DropEffect))

def runDrop (frame : GlueFrame) (part : GlueDrop) : Option (List DropEffect) := do
  let (value, path) ← frame.eval part.value
  if typeNeedsDrop pool.toLayoutPool part.ty then
    some [.dropPart path (← dropChild part.ty value)]
  else some []

def runDrops (frame : GlueFrame) (parts : List GlueDrop) : Option (List DropEffect) :=
  (parts.mapM (runDrop pool dropChild frame)).map List.flatten

def runStmt (frame : GlueFrame) : GlueStmt → Option (List DropEffect)
  | .call name arg => do
      let (_, path) ← frame.eval arg
      some [.destructor name path]
  | .drop part => runDrop pool dropChild frame part
  | .matchVariant scrutinee arms => do
      match ← frame.eval scrutinee with
      | (.enum variant _, _) => runDrops pool dropChild frame (← arms[variant]?)
      | _ => none

def runGlue (function : GlueFunction) (args : List (Val × List PartStep)) : Option (List DropEffect) :=
  let frame : GlueFrame :=
    { slotTable := buildSlotToLlvmParam pool.toLayoutPool function.paramSlotTypes 0
      params := args }
  (function.body.mapM (runStmt pool dropChild frame)).map List.flatten

def translateVecDrop (elementType : Ty) (capacity : Nat) (elems : List Val) : Option (List DropEffect) :=
  if capacity = 0 then some []
  else if typeNeedsDrop pool.toLayoutPool elementType then do
    let dropped ← elems.zipIdx.mapM fun entry => do
      some (DropEffect.dropPart [.element entry.2] (← dropChild elementType entry.1))
    some (dropped ++ [.free])
  else some [.free]

end Run

def dropValue (pool : OwnershipPool) : Nat → Ty → Val → Option (List DropEffect)
  | 0, _, _ => none
  | fuel + 1, .vec id, .vec capacity elems =>
    translateVecDrop pool (dropValue pool fuel) (pool.vecDef id) capacity elems
  | fuel + 1, ty, value => do
      runGlue pool (dropValue pool fuel) (← synthesizeDropGlue pool.toLayoutPool ty) (glueArgs value)

end Gruel
