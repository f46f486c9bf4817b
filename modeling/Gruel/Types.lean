import Mathlib.Data.List.Basic

/-!
Type handles and the interned definitions behind them.  Every later module reads
structs, enums and the structural constructors through a `TypeInternPool`, as the
compiler does.
-/

namespace Gruel

abbrev StructId := Nat
abbrev EnumId := Nat
abbrev InterfaceId := Nat
abbrev ModuleId := Nat
abbrev ArrayTypeId := Nat
abbrev PointeeId := Nat

inductive Ty
  | i8 | i16 | i32 | i64
  | u8 | u16 | u32 | u64
  | isize | usize
  | f16 | f32 | f64
  | bool | char | unit
  | cSchar | cShort | cInt | cLong | cLonglong
  | cUchar | cUshort | cUint | cUlong | cUlonglong
  | cFloat | cDouble | cVoid
  | struct (id : StructId)
  | enum (id : EnumId)
  | interface (id : InterfaceId)
  | array (id : ArrayTypeId)
  | ptrConst (id : PointeeId)
  | ptrMut (id : PointeeId)
  | ref (id : PointeeId)
  | mutRef (id : PointeeId)
  | slice (id : PointeeId)
  | mutSlice (id : PointeeId)
  | vec (id : PointeeId)
  | module (id : ModuleId)
  | never | error
  | comptimeType | comptimeStr | comptimeInt
  deriving DecidableEq, Repr

namespace Ty

def isSigned : Ty → Bool
  | i8 | i16 | i32 | i64 | isize => true
  | cSchar | cShort | cInt | cLong | cLonglong => true
  | _ => false

def isUnsigned : Ty → Bool
  | u8 | u16 | u32 | u64 | usize => true
  | cUchar | cUshort | cUint | cUlong | cUlonglong => true
  | _ => false

def isInteger (ty : Ty) : Bool := ty.isSigned || ty.isUnsigned

def isFloat : Ty → Bool
  | f16 | f32 | f64 | cFloat | cDouble => true
  | _ => false

def isNumeric (ty : Ty) : Bool := ty.isInteger || ty.isFloat

def isNever (ty : Ty) : Bool := decide (ty = never)

def isError (ty : Ty) : Bool := decide (ty = error)

def asStruct : Ty → Option StructId
  | struct id => some id
  | _ => none

def asEnum : Ty → Option EnumId
  | enum id => some id
  | _ => none

def canCoerceTo (ty target : Ty) : Bool := ty.isNever || ty.isError || decide (ty = target)

end Ty

inductive Posture
  | copy | affine | linear
  deriving DecidableEq, Repr

structure StructField where
  name : String
  ty : Ty
  deriving DecidableEq, Repr

structure StructDef where
  name : String
  fields : List StructField
  posture : Posture := .affine
  destructor : Option String := none
  isBuiltin : Bool := false
  isCLayout : Bool := false
  deriving DecidableEq, Repr

structure EnumVariantDef where
  name : String
  fields : List Ty
  fieldNames : List String := []
  deriving DecidableEq, Repr

structure EnumDef where
  name : String
  variants : List EnumVariantDef
  posture : Posture := .affine
  destructor : Option String := none
  isCLayout : Bool := false
  deriving DecidableEq, Repr

namespace StructDef

def fieldTypes (definition : StructDef) : List Ty := definition.fields.map StructField.ty

def isTupleShaped (definition : StructDef) : Bool :=
  "__anon_struct_".toList.isPrefixOf definition.name.toList && !definition.fields.isEmpty &&
    definition.fields.zipIdx.all fun (field, index) => field.name == toString index

end StructDef

namespace EnumVariantDef

def hasData (variant : EnumVariantDef) : Bool := !variant.fields.isEmpty

end EnumVariantDef

namespace EnumDef

def hasDataVariants (definition : EnumDef) : Bool := definition.variants.any EnumVariantDef.hasData

def isUnitOnly (definition : EnumDef) : Bool := !definition.hasDataVariants

def discriminantType (definition : EnumDef) : Ty := if definition.isCLayout then .cInt else
    let count := definition.variants.length
    if count = 0 then .never
    else if count ≤ 256 then .u8
    else if count ≤ 65536 then .u16
    else if count ≤ 4294967296 then .u32
    else .u64

end EnumDef

structure TypeInternPool where
  structDef : StructId → StructDef
  enumDef : EnumId → EnumDef
  arrayDef : ArrayTypeId → Ty × Nat

end Gruel
