import Gruel.EncodingCore
import Gruel.Lib.Llvm

/-!
Lowering of Gruel types to LLVM types, and what it means for the layout module to agree
with the size, alignment and struct offsets LLVM gives the lowered type.
-/

namespace Gruel

open RecordLayout (Shape)

/-- Types without parts.  `none` stands for LLVM's `void`. -/
def scalarToLlvm : Ty → Option LlvmTy
  | .i8 | .u8 | .cSchar | .cUchar => some (.int 8)
  | .i16 | .u16 | .cShort | .cUshort => some (.int 16)
  | .i32 | .u32 | .cInt | .cUint | .char => some (.int 32)
  | .i64 | .u64 | .isize | .usize => some (.int 64)
  | .cLong | .cUlong | .cLonglong | .cUlonglong => some (.int 64)
  | .f16 => some (.float 16)
  | .f32 | .cFloat => some (.float 32)
  | .f64 | .cDouble => some (.float 64)
  | .bool => some (.int 1)
  | .ptrConst _ | .ptrMut _ | .ref _ | .mutRef _ => some .ptr
  | .slice _ | .mutSlice _ => some (.struct [.ptr, .i64])
  | .vec _ => some (.struct [.ptr, .i64, .i64])
  | .interface _ => some (.struct [.ptr, .ptr])
  | _ => none

def structToLlvm (fields : List (Option LlvmTy)) : Option LlvmTy := match fields.filterMap id with
  | [] => none
  | lowered => some (.struct lowered)

def arrayToLlvm (elem : Option LlvmTy) (len : Nat) : Option LlvmTy :=
  if len = 0 then none else elem.map fun elemTy => .array elemTy (len % 2 ^ 32)

def payloadElem (maxVariantAlign : Nat) : LlvmTy × Nat := if 8 ≤ maxVariantAlign then (.int 64, 8)
  else if 4 ≤ maxVariantAlign then (.int 32, 4)
  else if 2 ≤ maxVariantAlign then (.int 16, 2)
  else (.int 8, 1)

def elemCount (maxPayload elemSize : Nat) : Nat := (maxPayload + elemSize - 1) / elemSize

def payloadToLlvm (definition : EnumDef) (variants : List (List Layout)) : LlvmTy :=
  let payload := maxPayload .machine variants
  if definition.isCLayout then
    let elem := payloadElem (maxVariantAlign variants)
    .array elem.1 (elemCount payload elem.2 % 2 ^ 32)
  else .array .i8 (payload % 2 ^ 32)

def enumToLlvm (definition : EnumDef) (layout : Layout) (variants : List (List Layout)) : Option LlvmTy :=
  if definition.isUnitOnly then scalarToLlvm definition.discriminantType
  else
    match layout.discriminant with
    | some (.niche ..) => some (.array .i8 (layout.size % 2 ^ 32))
    | _ =>
      (scalarToLlvm definition.discriminantType).map fun discrim =>
        if maxPayload .machine variants = 0 then discrim
        else .struct [discrim, payloadToLlvm definition variants]

def gruelTypeToLlvm (pool : LayoutPool) (ty : Ty) : Option LlvmTy := match ty with
  | .struct id =>
    structToLlvm ((pool.structDef id).fieldTypes.attach.map fun field => gruelTypeToLlvm pool field.1)
  | .array id => arrayToLlvm (gruelTypeToLlvm pool (pool.arrayDef id).1) (pool.arrayDef id).2
  | .enum id =>
    enumToLlvm (pool.enumDef id) (layoutOf .machine pool (.enum id)) (variantLayouts .machine pool (pool.enumDef id))
  | leaf => scalarToLlvm leaf
termination_by pool.rank ty
decreasing_by
  · exact pool.rank_field id field.2
  · exact pool.rank_element id

attribute [grind =] gruelTypeToLlvm scalarToLlvm

theorem gruelTypeToLlvm_struct (pool : LayoutPool) (id : StructId) : gruelTypeToLlvm pool (.struct id) =
      structToLlvm ((pool.structDef id).fieldTypes.map (gruelTypeToLlvm pool)) := by
  rw [gruelTypeToLlvm, List.attach_map_val]

theorem gruelTypeToLlvm_array (pool : LayoutPool) (id : ArrayTypeId) : gruelTypeToLlvm pool (.array id) =
      arrayToLlvm (gruelTypeToLlvm pool (pool.arrayDef id).1) (pool.arrayDef id).2 := by
  rw [gruelTypeToLlvm]

theorem gruelTypeToLlvm_enum (pool : LayoutPool) (id : EnumId) : gruelTypeToLlvm pool (.enum id) =
      enumToLlvm (pool.enumDef id) (layoutOf .machine pool (.enum id))
        (variantLayouts .machine pool (pool.enumDef id)) := by
  rw [gruelTypeToLlvm]

theorem gruelTypeToLlvm_isLeaf (pool : LayoutPool) {ty : Ty} (isLeaf : ty.isLeaf = true) :
    gruelTypeToLlvm pool ty = scalarToLlvm ty := by
  rw [gruelTypeToLlvm]
  all_goals
    rintro _ rfl
    cases isLeaf

def llvmShape (pool : LayoutPool) (ty : Ty) : Shape := match gruelTypeToLlvm pool ty with
  | none => ⟨0, 1⟩
  | some lowered => lowered.shape

def llvmOffsetsFrom (start : Nat) : List (Option LlvmTy) → List (Option Nat)
  | [] => []
  | none :: rest => none :: llvmOffsetsFrom start rest
  | some ty :: rest =>
    let offset := RecordLayout.alignUp start ty.shape.align
    some offset :: llvmOffsetsFrom (offset + ty.shape.size) rest

def llvmFieldOffsets (pool : LayoutPool) (id : StructId) : List (Option Nat) :=
  llvmOffsetsFrom 0 ((pool.structDef id).fieldTypes.map (gruelTypeToLlvm pool))

def NicheRange.shift (offset : Nat) (niche : NicheRange) : NicheRange :=
  { niche with offset := niche.offset + offset }

def nichesAt : List (Option Nat) → List (List NicheRange) → List NicheRange
  | some offset :: offsets, niches :: rest => niches.map (NicheRange.shift offset) ++ nichesAt offsets rest
  | none :: offsets, _ :: rest => nichesAt offsets rest
  | _, _ => []

/-- `layoutOf` and LLVM give the type the same size, alignment and inner offsets. -/
structure LayoutAgrees (pool : LayoutPool) (ty : Ty) : Prop where
  size : (layoutOf .machine pool ty).size = (llvmShape pool ty).size
  align : (layoutOf .machine pool ty).align = (llvmShape pool ty).align
  offsets : ∀ id, ty = .struct id → fieldOffsets .machine pool id = llvmFieldOffsets pool id
  niches : ∀ id, ty = .struct id → (layoutOf .machine pool ty).niches = nichesAt (llvmFieldOffsets pool id)
      ((pool.structDef id).fieldTypes.map fun field => (layoutOf .machine pool field).niches)
  payload : ∀ tagOffset tagWidth payloadOffset discrim payload,
    (layoutOf .machine pool ty).discriminant = some (.separate tagOffset tagWidth payloadOffset) →
    gruelTypeToLlvm pool ty = some (.struct [discrim, payload]) →
    RecordLayout.offsetsFrom 0 [discrim.shape, payload.shape] = [tagOffset, payloadOffset]

def NicheEncodedEnum (pool : LayoutPool) (id : EnumId) : Prop :=
  (tryNicheEncodedEnumLayout (variantLayouts .exact pool (pool.enumDef id))).isSome

instance (pool : LayoutPool) (id : EnumId) : Decidable (NicheEncodedEnum pool id) :=
  inferInstanceAs (Decidable (_ = true))

def payloadLength (pool : LayoutPool) (definition : EnumDef) : Nat :=
  let variants := variantLayouts .exact pool definition
  if definition.isCLayout then
    elemCount (maxPayload .exact variants) (payloadElem (maxVariantAlign variants)).2
  else maxPayload .exact variants

/-- The condition one part of a type has to meet, in exact sizes and alignments: lengths and
niche offsets fit 32 bits, and what LLVM sees as plain bytes (a niche-encoded enum) or not at
all (an empty array) has alignment 1. -/
def FaithfulPart (pool : LayoutPool) : Ty → Prop
  | .struct id => ∀ niche ∈ (layoutOf .exact pool (.struct id)).niches, niche.offset < 2 ^ 32
  | .array id =>
    let elem := layoutOf .exact pool (pool.arrayDef id).1
    ((pool.arrayDef id).2 = 0 → elem.align = 1) ∧ (elem.size ≠ 0 → (pool.arrayDef id).2 < 2 ^ 32)
  | .enum id =>
    if NicheEncodedEnum pool id then
      (layoutOf .exact pool (.enum id)).align = 1 ∧ (layoutOf .exact pool (.enum id)).size < 2 ^ 32
    else (pool.enumDef id).isUnitOnly = true ∨ payloadLength pool (pool.enumDef id) < 2 ^ 32
  | _ => True

end Gruel
