import Mathlib.Algebra.GroupWithZero.Nat
import Gruel.Types
import Gruel.Lib.RecordLayout

/-!
Size, alignment, niches and discriminant strategy of every type.

The computation is written once over the word operations it uses.  `Words.machine`
gives the compiler's own arithmetic (`u64` sizes, narrowing casts to `u32` and `u8`,
wrapping on overflow); `Words.exact` gives the layout in unbounded arithmetic.
-/

namespace Gruel

structure Words where
  u64 : Nat → Nat
  u32 : Nat → Nat
  u8 : Nat → Nat

def Words.machine : Words where
  u64 n := n % 2 ^ 64
  u32 n := n % 2 ^ 32
  u8 n := n % 2 ^ 8

def Words.exact : Words where
  u64 n := n
  u32 n := n
  u8 n := n

@[simp] theorem Words.exact_u64 (n : Nat) : Words.exact.u64 n = n := rfl

@[simp] theorem Words.exact_u32 (n : Nat) : Words.exact.u32 n = n := rfl

@[simp] theorem Words.exact_u8 (n : Nat) : Words.exact.u8 n = n := rfl

theorem Words.machine_u64 (n : Nat) : Words.machine.u64 n = n % 2 ^ 64 := rfl

theorem Words.machine_u32 (n : Nat) : Words.machine.u32 n = n % 2 ^ 32 := rfl

/-- A forbidden bit-pattern range: the `width` bytes at `offset`, read as a little-endian
unsigned integer, never fall in `[start, end]`. -/
structure NicheRange where
  offset : Nat
  width : Nat
  start : Nat
  stop : Nat
  deriving DecidableEq, Repr

def NicheRange.maxForWidth (width : Nat) : Nat :=
  if 16 ≤ width then 2 ^ 128 - 1 else 2 ^ (width * 8) - 1

inductive DiscriminantStrategy
  | separate (tagOffset tagWidth payloadOffset : Nat)
  | niche (unitVariant dataVariant nicheOffset nicheWidth nicheValue : Nat)
  deriving DecidableEq, Repr

structure Layout where
  size : Nat
  align : Nat
  niches : List NicheRange := []
  discriminant : Option DiscriminantStrategy := none
  deriving DecidableEq, Repr

namespace Layout

def scalar (size align : Nat) : Layout := { size, align }

def zeroSized : Layout := { size := 0, align := 1 }

def bool : Layout :=
  { size := 1, align := 1, niches := [{ offset := 0, width := 1, start := 2, stop := 255 }] }

def char : Layout :=
  { size := 4
    align := 4
    niches :=
      [{ offset := 0, width := 4, start := 0xD800, stop := 0xDFFF },
        { offset := 0, width := 4, start := 0x110000, stop := 0xFFFFFFFF }] }

end Layout

/-- `(value + align - 1) & !(align - 1)`; every alignment is a power of two, so clearing the
low bits rounds down to a multiple of `align`. -/
def alignUp (words : Words) (value align : Nat) : Nat :=
  words.u64 (value + align - 1) / align * align

structure StructScan where
  offset : Nat := 0
  maxAlign : Nat := 1
  niches : List NicheRange := []

def StructScan.addField (words : Words) (scan : StructScan) (field : Layout) : StructScan :=
  if field.size = 0 then scan
  else
    let offset := alignUp words scan.offset field.align
    { offset := words.u64 (offset + field.size)
      maxAlign := max scan.maxAlign field.align
      niches := scan.niches ++ field.niches.map fun n =>
        { n with offset := words.u32 (n.offset + words.u32 offset) } }

theorem StructScan.addField_offset (words : Words) (scan : StructScan) {field : Layout}
    (nonempty : field.size ≠ 0) : (scan.addField words field).offset =
      words.u64 (alignUp words scan.offset field.align + field.size) := by
  simp [addField, nonempty]

def StructScan.layout (words : Words) (scan : StructScan) : Layout :=
  { size := if 1 < scan.maxAlign then alignUp words scan.offset scan.maxAlign else scan.offset
    align := scan.maxAlign
    niches := scan.niches }

def structLayout (words : Words) (fields : List Layout) : Layout :=
  (fields.foldl (StructScan.addField words) {}).layout words

/-- The value of the running `offset` at which each field is placed; a zero-sized field is
passed over and records nothing. -/
def structFieldOffsets (words : Words) : StructScan → List Layout → List (Option Nat)
  | _, [] => []
  | scan, field :: rest =>
    (if field.size = 0 then none else some (alignUp words scan.offset field.align)) ::
      structFieldOffsets words (scan.addField words field) rest

def arrayLayout (words : Words) (elem : Layout) (len : Nat) : Layout :=
  { size := words.u64 (elem.size * len), align := elem.align }

def scalarLayout : Ty → Layout
  | .bool => .bool
  | .i8 | .u8 | .cSchar | .cUchar => .scalar 1 1
  | .i16 | .u16 | .f16 | .cShort | .cUshort => .scalar 2 2
  | .i32 | .u32 | .f32 | .cInt | .cUint | .cFloat => .scalar 4 4
  | .i64 | .u64 | .f64 | .isize | .usize => .scalar 8 8
  | .cLong | .cUlong | .cLonglong | .cUlonglong | .cDouble => .scalar 8 8
  | .char => .char
  | .ptrConst _ | .ptrMut _ | .ref _ | .mutRef _ => .scalar 8 8
  | .slice _ | .mutSlice _ | .interface _ => .scalar 16 8
  | .vec _ => .scalar 24 8
  | _ => .zeroSized

def discriminantLayout (definition : EnumDef) : Layout := scalarLayout definition.discriminantType

def payloadSize (words : Words) (fields : List Layout) : Nat :=
  words.u64 (fields.map Layout.size).sum

def maxPayload (words : Words) (variants : List (List Layout)) : Nat :=
  (variants.map (payloadSize words)).foldr max 0

def maxVariantAlign (variants : List (List Layout)) : Nat :=
  (variants.flatten.map Layout.align).foldr max 1

def unitOnlyEnumNiches (variantCount tagWidth : Nat) : List NicheRange :=
  let max := NicheRange.maxForWidth tagWidth
  if 0 < variantCount ∧ variantCount ≤ max then
    [{ offset := 0, width := tagWidth, start := variantCount, stop := max }]
  else []

def unitOnlyEnumLayout (words : Words) (definition : EnumDef) : Layout :=
  let discrim := discriminantLayout definition
  let tagWidth := words.u8 discrim.size
  { size := discrim.size
    align := discrim.align
    niches := unitOnlyEnumNiches definition.variants.length tagWidth
    discriminant := some (.separate 0 tagWidth (words.u32 discrim.size)) }

def cEnumLayout (words : Words) (definition : EnumDef) (variants : List (List Layout)) : Layout :=
  let discrim := discriminantLayout definition
  let tagWidth := words.u8 discrim.size
  let enumAlign := max discrim.align (maxVariantAlign variants)
  let payloadOffset := alignUp words discrim.size enumAlign
  let totalPayload := alignUp words (maxPayload words variants) enumAlign
  { size := alignUp words (words.u64 (payloadOffset + totalPayload)) enumAlign
    align := enumAlign
    discriminant := some (.separate 0 tagWidth (words.u32 payloadOffset)) }

def dataEnumLayout (words : Words) (definition : EnumDef) (variants : List (List Layout)) : Layout :=
  let discrim := discriminantLayout definition
  let tagWidth := words.u8 discrim.size
  let payload := maxPayload words variants
  { size :=
      if payload = 0 then discrim.size
      else alignUp words (words.u64 (discrim.size + payload)) discrim.align
    align := discrim.align
    discriminant := some (.separate 0 tagWidth (words.u32 discrim.size)) }

def enumLayoutSeparate (words : Words) (definition : EnumDef) (variants : List (List Layout)) : Layout :=
  if definition.isUnitOnly then unitOnlyEnumLayout words definition
  else if definition.isCLayout then cEnumLayout words definition variants
  else dataEnumLayout words definition variants

def nicheEncoded (unitVariant dataVariant : Nat) (payload : Layout) : Option Layout :=
  match payload.niches with
  | [] => none
  | niche :: _ => some
    { size := payload.size
      align := payload.align
      niches := if niche.start + 1 ≤ niche.stop then [{ niche with start := niche.start + 1 }] else []
      discriminant := some (.niche unitVariant dataVariant niche.offset niche.width niche.start) }

/-- Each entry of `variants` holds the layouts of one variant's fields: exactly one variant
without fields, and one whose single field exposes a niche. -/
def tryNicheEncodedEnumLayout : List (List Layout) → Option Layout
  | [[], [payload]] => nicheEncoded 0 1 payload
  | [[payload], []] => nicheEncoded 1 0 payload
  | _ => none

def enumLayout (words : Words) (definition : EnumDef) (variants : List (List Layout)) : Layout :=
  match tryNicheEncodedEnumLayout variants with
  | some layout => layout
  | none => enumLayoutSeparate words definition variants

def TypeInternPool.components (pool : TypeInternPool) : Ty → List Ty
  | .struct id => (pool.structDef id).fieldTypes
  | .array id => [(pool.arrayDef id).1]
  | .enum id => (pool.enumDef id).variants.flatMap EnumVariantDef.fields
  | _ => []

/-- A pool whose definitions are complete: no type contains itself by value. -/
structure LayoutPool extends TypeInternPool where
  rank : Ty → Nat
  rank_lt : ∀ ty, ∀ part ∈ toTypeInternPool.components ty, rank part < rank ty

theorem LayoutPool.rank_field (pool : LayoutPool) (id : StructId) {ty : Ty}
    (member : ty ∈ (pool.structDef id).fieldTypes) : pool.rank ty < pool.rank (.struct id) :=
  pool.rank_lt (.struct id) ty member

theorem LayoutPool.rank_element (pool : LayoutPool) (id : ArrayTypeId) :
    pool.rank (pool.arrayDef id).1 < pool.rank (.array id) :=
  pool.rank_lt (.array id) _ (List.mem_singleton.mpr rfl)

theorem LayoutPool.rank_payload (pool : LayoutPool) (id : EnumId) {variant : EnumVariantDef}
    {ty : Ty} (inEnum : variant ∈ (pool.enumDef id).variants) (inVariant : ty ∈ variant.fields) :
    pool.rank ty < pool.rank (.enum id) :=
  pool.rank_lt (.enum id) ty (List.mem_flatMap.mpr ⟨variant, inEnum, inVariant⟩)

def layoutOf (words : Words) (pool : LayoutPool) (ty : Ty) : Layout :=
  match ty with
  | .struct id =>
    structLayout words ((pool.structDef id).fieldTypes.attach.map fun field => layoutOf words pool field.1)
  | .array id => arrayLayout words (layoutOf words pool (pool.arrayDef id).1) (pool.arrayDef id).2
  | .enum id =>
    enumLayout words (pool.enumDef id) ((pool.enumDef id).variants.attach.map fun variant =>
        variant.1.fields.attach.map fun field => layoutOf words pool field.1)
  | leaf => scalarLayout leaf
termination_by pool.rank ty
decreasing_by
  · exact pool.rank_field id field.2
  · exact pool.rank_element id
  · exact pool.rank_payload id variant.2 field.2

attribute [grind =] layoutOf scalarLayout structFieldOffsets

theorem layoutOf_struct (words : Words) (pool : LayoutPool) (id : StructId) : layoutOf words pool (.struct id) =
      structLayout words ((pool.structDef id).fieldTypes.map (layoutOf words pool)) := by
  rw [layoutOf, List.attach_map_val]

theorem layoutOf_array (words : Words) (pool : LayoutPool) (id : ArrayTypeId) : layoutOf words pool (.array id) =
      arrayLayout words (layoutOf words pool (pool.arrayDef id).1) (pool.arrayDef id).2 := by
  rw [layoutOf]

def variantLayouts (words : Words) (pool : LayoutPool) (definition : EnumDef) : List (List Layout) :=
  definition.variants.map fun variant => variant.fields.map (layoutOf words pool)

theorem layoutOf_enum (words : Words) (pool : LayoutPool) (id : EnumId) : layoutOf words pool (.enum id) =
      enumLayout words (pool.enumDef id) (variantLayouts words pool (pool.enumDef id)) := by
  rw [layoutOf]
  simp only [List.attach_map_val, variantLayouts]
  congr 1
  exact List.attach_map_val (f := fun variant : EnumVariantDef => variant.fields.map (layoutOf words pool))

theorem layoutOf_leaf (words : Words) (pool : LayoutPool) {ty : Ty}
    (notStruct : ∀ id, ty ≠ .struct id) (notArray : ∀ id, ty ≠ .array id)
    (notEnum : ∀ id, ty ≠ .enum id) : layoutOf words pool ty = scalarLayout ty := by
  rw [layoutOf]
  · exact notStruct
  · exact notArray
  · exact notEnum

end Gruel
