import Gruel.LlvmTypesCore

/-!
Code generation for enum values: `EnumVariant`, `EnumCreate`, `EnumPayloadGet` and
`GetDiscriminant`, each as the function from LLVM values to LLVM values its instructions
compute.  The outer `Option` is a panic of the code generator; the inner one is a
zero-sized result, which has no LLVM value.  `undef` supplies the contents of fresh
stack slots and of padding, one memory for each step.
-/

namespace Gruel

open ByteMemory

abbrev Undef := Nat → Memory

def nicheIntType : Nat → Option Nat
  | 1 => some 8
  | 2 => some 16
  | 4 => some 32
  | 8 => some 64
  | 16 => some 128
  | _ => none

def writeNicheBytes (memory : Memory) (offset width value : Nat) : Option Memory :=
  (nicheIntType width).map fun bits => writeLe memory offset width (value % 2 ^ 64 % 2 ^ bits)

def loadNicheBytes (memory : Memory) (offset width : Nat) : Option Nat :=
  (nicheIntType width).map fun _ => readLe memory offset width

/-- `[size x i8]`, the storage of a niche-encoded enum. -/
def storageTy (pool : LayoutPool) (id : EnumId) : LlvmTy :=
  .array .i8 ((layoutOf .machine pool (.enum id)).size % 2 ^ 32)

def zeroedSlot (undef : Undef) (storage : LlvmTy) : Memory :=
  storage.store (undef 1) storage.zero 0 (undef 0)

def payloadPtr (tag payload : LlvmTy) : Nat :=
  RecordLayout.alignUp tag.shape.size payload.shape.align

def discriminantToLlvm (pool : LayoutPool) (id : EnumId) : Option LlvmTy :=
  gruelTypeToLlvm pool (pool.enumDef id).discriminantType

def enumVariant (pool : LayoutPool) (undef : Undef) (id : EnumId) (variantIndex : Nat) : Option (Option LlvmVal) :=
  if (pool.enumDef id).isUnitOnly then
    match gruelTypeToLlvm pool (.enum id) with
    | none => some none
    | some (.int bits) => some (some (.scalar (variantIndex % 2 ^ bits)))
    | some _ => none
  else
    match strategyOf pool id with
    | some (.niche _ _ nicheOffset nicheWidth nicheValue) =>
      let storage := storageTy pool id
      (writeNicheBytes (zeroedSlot undef storage) nicheOffset nicheWidth nicheValue).map
        fun memory => some (storage.load memory 0)
    | some (.separate ..) =>
      match gruelTypeToLlvm pool (.enum id), discriminantToLlvm pool id with
      | none, _ => some none
      | some (.struct [_, payload]), some (.int bits) =>
        some (some (.agg [.scalar (variantIndex % 2 ^ bits), payload.zero]))
      | _, _ => none
    | none => none

def storePayload (pool : LayoutPool) (undef : Undef) (payload : Nat) :
    List Ty → List (Option LlvmVal) → (byteOffset step : Nat) → Memory → Option Memory
  | _, [], _, _, memory => some memory
  | [], _ :: _, _, _, _ => none
  | ty :: tys, value :: values, byteOffset, step, memory =>
    match gruelTypeToLlvm pool ty, value with
    | none, _ => storePayload pool undef payload tys values byteOffset step memory
    | some _, none => none
    | some lowered, some stored =>
      storePayload pool undef payload tys values
        (Words.machine.u64 (byteOffset + (layoutOf .machine pool ty).size)) (step + 1)
        (lowered.store (undef step) stored (payload + byteOffset) memory)

def storeNicheVariant (pool : LayoutPool) (undef : Undef) (isUnit : Prop) [Decidable isUnit]
    (nicheOffset nicheWidth nicheValue : Nat) (variant : EnumVariantDef)
    (fields : List (Option LlvmVal)) (slot : Memory) : Option Memory :=
  if isUnit then writeNicheBytes slot nicheOffset nicheWidth nicheValue
  else
    match variant.fields, fields with
    | ty :: _, value :: _ =>
      match gruelTypeToLlvm pool ty, value with
      | none, _ => some slot
      | some lowered, some stored => some (lowered.store (undef 2) stored 0 slot)
      | some _, none => none
    | _, _ => none

def enumCreate (pool : LayoutPool) (undef : Undef) (id : EnumId) (variantIndex : Nat)
    (variant : EnumVariantDef) (fields : List (Option LlvmVal)) : Option (Option LlvmVal) :=
  match strategyOf pool id with
  | some (.niche unitVariant _ nicheOffset nicheWidth nicheValue) =>
    let storage := storageTy pool id
    (storeNicheVariant pool undef (variantIndex = unitVariant) nicheOffset nicheWidth nicheValue
      variant fields (zeroedSlot undef storage)).map fun memory => some (storage.load memory 0)
  | some (.separate ..) =>
    match gruelTypeToLlvm pool (.enum id), discriminantToLlvm pool id with
    | none, _ => some none
    | some (.struct [tag, payload]), some (.int bits) =>
      let tagged := (LlvmTy.int bits).store (undef 1) (.scalar (variantIndex % 2 ^ bits)) 0 (undef 0)
      (storePayload pool undef (payloadPtr tag payload) variant.fields fields 0 2 tagged).map
        fun memory => some ((LlvmTy.struct [tag, payload]).load memory 0)
    | _, _ => none
  | none => none

def enumPayloadGet (pool : LayoutPool) (undef : Undef) (id : EnumId) (variant : EnumVariantDef)
    (fieldIndex : Nat) (base : LlvmVal) : Option (Option LlvmVal) :=
  match strategyOf pool id with
  | some (.niche ..) =>
    match variant.fields with
    | [] => none
    | ty :: _ =>
      match gruelTypeToLlvm pool ty with
      | none => some none
      | some lowered =>
        let slot := (storageTy pool id).store (undef 1) base 0 (undef 0)
        some (some (lowered.load slot 0))
  | some (.separate ..) =>
    match variant.fields[fieldIndex]? with
    | none => none
    | some ty =>
      match gruelTypeToLlvm pool ty with
      | none => some none
      | some lowered =>
        match gruelTypeToLlvm pool (.enum id) with
        | some (.struct [tag, payload]) =>
          let slot := (LlvmTy.struct [tag, payload]).store (undef 1) base 0 (undef 0)
          let byteOffset := Words.machine.u64 (payloadFieldOffset pool variant.fields fieldIndex)
          some (some (lowered.load slot (payloadPtr tag payload + byteOffset)))
        | _ => none
  | none => none

def getDiscriminant (pool : LayoutPool) (undef : Undef) (id : EnumId) (raw : LlvmVal) : Option LlvmVal :=
  match strategyOf pool id with
  | some (.separate ..) =>
    if (pool.enumDef id).hasDataVariants then
      match gruelTypeToLlvm pool (.enum id), raw with
      | some (.struct _), .agg (tag :: _) => some tag
      | _, _ => none
    else some raw
  | some (.niche unitVariant dataVariant nicheOffset nicheWidth nicheValue) =>
    let slot := (storageTy pool id).store (undef 1) raw 0 (undef 0)
    match loadNicheBytes slot nicheOffset nicheWidth, nicheIntType nicheWidth, discriminantToLlvm pool id with
    | some nicheBytes, some bits, some (.int discrimBits) =>
      let isUnit := nicheBytes = nicheValue % 2 ^ 64 % 2 ^ bits
      some (.scalar (if isUnit then unitVariant % 2 ^ discrimBits else dataVariant % 2 ^ discrimBits))
    | _, _, _ => none
  | none => none

def encodeVariant (pool : LayoutPool) (undef : Undef) (id : EnumId) (variantIndex : Nat)
    (variant : EnumVariantDef) (fields : List (Option LlvmVal)) : Option (Option LlvmVal) :=
  if variant.hasData then enumCreate pool undef id variantIndex variant fields
  else enumVariant pool undef id variantIndex

/-- The LLVM values that represent Gruel values: scalars with a legal bit pattern, aggregates of
such values, and whatever the enum instructions build from such values. -/
inductive ValidVal (pool : LayoutPool) : Ty → LlvmVal → Prop
  | leaf {ty : Ty} {lowered : LlvmTy} {value : LlvmVal} (isLeaf : ty.isLeaf = true)
      (representable : scalarToLlvm ty = some lowered) (typed : lowered.HasVal value)
      (valid : ∀ bits, value = .scalar bits → ValidBits ty bits) : ValidVal pool ty value
  | struct {structId : StructId} {fields : List (Option LlvmVal)}
      (arity : fields.length = (pool.structDef structId).fieldTypes.length)
      (present : ∀ (index : Nat) ty value, (pool.structDef structId).fieldTypes[index]? = some ty →
        fields[index]? = some (some value) → ValidVal pool ty value)
      (absent : ∀ (index : Nat) ty, (pool.structDef structId).fieldTypes[index]? = some ty →
        fields[index]? = some none → gruelTypeToLlvm pool ty = none)
      (nonempty : fields.filterMap id ≠ []) :
      ValidVal pool (.struct structId) (.agg (fields.filterMap id))
  | array {arrayId : ArrayTypeId} {elems : List LlvmVal} (nonempty : (pool.arrayDef arrayId).2 ≠ 0)
      (representable : (gruelTypeToLlvm pool (pool.arrayDef arrayId).1).isSome)
      (arity : elems.length = (pool.arrayDef arrayId).2 % 2 ^ 32)
      (present : ∀ value ∈ elems, ValidVal pool (pool.arrayDef arrayId).1 value) :
      ValidVal pool (.array arrayId) (.agg elems)
  | enum {enumId : EnumId} {variantIndex : UInt32} {variant : EnumVariantDef}
      {fields : List (Option LlvmVal)} {undef : Undef} {value : LlvmVal}
      (declared : (pool.enumDef enumId).variants[variantIndex.toNat]? = some variant)
      (arity : fields.length = variant.fields.length)
      (present : ∀ (index : Nat) ty value, variant.fields[index]? = some ty →
        fields[index]? = some (some value) → ValidVal pool ty value)
      (absent : ∀ (index : Nat) ty, variant.fields[index]? = some ty →
        fields[index]? = some none → gruelTypeToLlvm pool ty = none)
      (encoded : encodeVariant pool undef enumId variantIndex.toNat variant fields = some (some value)) :
      ValidVal pool (.enum enumId) value

structure FieldValues (pool : LayoutPool) (tys : List Ty) (fields : List (Option LlvmVal)) :
    Prop where
  arity : fields.length = tys.length
  present : ∀ (index : Nat) ty value, tys[index]? = some ty → fields[index]? = some (some value) →
    ValidVal pool ty value
  absent : ∀ (index : Nat) ty, tys[index]? = some ty → fields[index]? = some none → gruelTypeToLlvm pool ty = none

/-- Every variant of the enum, encoded and read back, gives its own index and its own fields,
and no instruction makes the code generator panic. -/
def EnumSurvives (pool : LayoutPool) (id : EnumId) : Prop :=
  ∀ (variantIndex : UInt32) variant fields undef, (pool.enumDef id).variants[variantIndex.toNat]? = some variant →
    FieldValues pool variant.fields fields →
    ∃ value, encodeVariant pool undef id variantIndex.toNat variant fields = some (some value) ∧
      ∀ undef, getDiscriminant pool undef id value = some (.scalar variantIndex.toNat) ∧
        ∀ (index : Nat) field, fields[index]? = some field →
          enumPayloadGet pool undef id variant index value = some field

def FirstNicheField (pool : LayoutPool) (id : StructId) (index : Nat) (ty : Ty) : Prop :=
  (pool.structDef id).fieldTypes[index]? = some ty ∧ (layoutOf .exact pool ty).niches ≠ [] ∧
    ∀ earlier < index, ∀ other, (pool.structDef id).fieldTypes[earlier]? = some other →
      (layoutOf .exact pool other).niches = []

inductive NichePlaced (pool : LayoutPool) : Ty → Prop
  | leaf {ty : Ty} (isLeaf : ty.isLeaf = true) : NichePlaced pool ty
  | array (id : ArrayTypeId) : NichePlaced pool (.array id)
  | separate {id : EnumId} (plain : ¬ NicheEncodedEnum pool id) : NichePlaced pool (.enum id)
  | niche {id : EnumId} {index : Nat} {variant : EnumVariantDef} {payload : Ty}
      (declared : (pool.enumDef id).variants[index]? = some variant)
      (single : variant.fields = [payload]) (placed : NichePlaced pool payload) :
      NichePlaced pool (.enum id)
  | struct {id : StructId} (placed : ∀ index ty offset, FirstNicheField pool id index ty →
        (fieldOffsets .exact pool id)[index]? = some (some offset) →
        (llvmFieldOffsets pool id)[index]? = some (some offset))
      (inner : ∀ index ty, FirstNicheField pool id index ty → NichePlaced pool ty) :
      NichePlaced pool (.struct id)

/-- When the encoding of an enum is faithful: a niche is read where LLVM stores it, a separate
payload has bytes at all, and the storage length fits 32 bits. -/
def EnumEncodable (pool : LayoutPool) (id : EnumId) : Prop := if NicheEncodedEnum pool id then
    (layoutOf .exact pool (.enum id)).size < 2 ^ 32 ∧ NichePlaced pool (.enum id)
  else (pool.enumDef id).isUnitOnly = true ∨ maxPayload .exact (variantLayouts .exact pool (pool.enumDef id)) ≠ 0 ∧
      payloadLength pool (pool.enumDef id) < 2 ^ 32

end Gruel
