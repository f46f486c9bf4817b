import Gruel.OwnershipCore
import Gruel.Lib.Spelling

/-!
The names of synthesized drop glue.  They are put together from identifiers and separators, and the
separators are legal in identifiers.
-/

namespace Gruel

namespace DropNames

open Spelling (decimal decimal_injective isDigit_of_mem_decimal append_mark_inj)

inductive Wrapper
  | array (length : Nat) | ptrConst | ptrMut | ref | mutRef | slice | mutSlice | vec

namespace Wrapper

def opening : Wrapper → List Char
  | array _ => "array_".toList
  | ptrConst => "ptr_const_".toList
  | ptrMut => "ptr_mut_".toList
  | ref => "ref_".toList
  | mutRef => "mut_ref_".toList
  | slice => "slice_".toList
  | mutSlice => "mut_slice_".toList
  | vec => "vec_".toList

def closing : Wrapper → List Char
  | array length => '_' :: decimal length
  | _ => []

end Wrapper

def wrapping (pool : TypeInternPool) (pointeeDef : Wrapper → PointeeId → Ty) : Ty → Option (Wrapper × Ty)
  | .array id => some (.array (pool.arrayDef id).2, (pool.arrayDef id).1)
  | .ptrConst id => some (.ptrConst, pointeeDef .ptrConst id)
  | .ptrMut id => some (.ptrMut, pointeeDef .ptrMut id)
  | .ref id => some (.ref, pointeeDef .ref id)
  | .mutRef id => some (.mutRef, pointeeDef .mutRef id)
  | .slice id => some (.slice, pointeeDef .slice id)
  | .mutSlice id => some (.mutSlice, pointeeDef .mutSlice id)
  | .vec id => some (.vec, pointeeDef .vec id)
  | _ => none

/-- A pool with the types behind pointers, slices and vectors.  Handles are interned: two handles of
one constructor over one type are one handle. -/
structure NamePool extends LayoutPool where
  pointeeDef : Wrapper → PointeeId → Ty
  interned : ∀ ty other, (wrapping toTypeInternPool pointeeDef ty).isSome →
    wrapping toTypeInternPool pointeeDef ty = wrapping toTypeInternPool pointeeDef other → ty = other
  nameRank : Ty → Nat
  nameRank_lt : ∀ ty wrapper part,
    wrapping toTypeInternPool pointeeDef ty = some (wrapper, part) → nameRank part < nameRank ty

namespace NamePool

variable (pool : NamePool)

def wrapping : Ty → Option (Wrapper × Ty) := DropNames.wrapping pool.toTypeInternPool pool.pointeeDef

def structName (id : StructId) : List Char := (pool.structDef id).name.toList

def enumName (id : EnumId) : List Char := (pool.enumDef id).name.toList

end NamePool

variable {pool : NamePool} {ty other : Ty}

def leafName (pool : NamePool) : Ty → List Char
  | .i8 => "i8".toList
  | .i16 => "i16".toList
  | .i32 => "i32".toList
  | .i64 => "i64".toList
  | .u8 => "u8".toList
  | .u16 => "u16".toList
  | .u32 => "u32".toList
  | .u64 => "u64".toList
  | .isize => "isize".toList
  | .usize => "usize".toList
  | .f16 => "f16".toList
  | .f32 => "f32".toList
  | .f64 => "f64".toList
  | .bool => "bool".toList
  | .char => "char".toList
  | .unit => "unit".toList
  | .never => "never".toList
  | .error => "error".toList
  | .comptimeType => "comptime_type".toList
  | .comptimeStr => "comptime_str".toList
  | .comptimeInt => "comptime_int".toList
  | .cSchar => "c_schar".toList
  | .cShort => "c_short".toList
  | .cInt => "c_int".toList
  | .cLong => "c_long".toList
  | .cLonglong => "c_longlong".toList
  | .cUchar => "c_uchar".toList
  | .cUshort => "c_ushort".toList
  | .cUint => "c_uint".toList
  | .cUlong => "c_ulong".toList
  | .cUlonglong => "c_ulonglong".toList
  | .cFloat => "c_float".toList
  | .cDouble => "c_double".toList
  | .cVoid => "c_void".toList
  | .enum id => "enum".toList ++ decimal id
  | .struct id => pool.structName id
  | .module id => "module".toList ++ decimal id
  | .interface id => "interface".toList ++ decimal id
  | _ => []

def typeNameComponent (pool : NamePool) (ty : Ty) : List Char :=
  match ty with
  | .array id =>
    "array_".toList ++ typeNameComponent pool (pool.arrayDef id).1 ++ '_' :: decimal (pool.arrayDef id).2
  | .ptrConst id => "ptr_const_".toList ++ typeNameComponent pool (pool.pointeeDef .ptrConst id)
  | .ptrMut id => "ptr_mut_".toList ++ typeNameComponent pool (pool.pointeeDef .ptrMut id)
  | .ref id => "ref_".toList ++ typeNameComponent pool (pool.pointeeDef .ref id)
  | .mutRef id => "mut_ref_".toList ++ typeNameComponent pool (pool.pointeeDef .mutRef id)
  | .slice id => "slice_".toList ++ typeNameComponent pool (pool.pointeeDef .slice id)
  | .mutSlice id => "mut_slice_".toList ++ typeNameComponent pool (pool.pointeeDef .mutSlice id)
  | .vec id => "vec_".toList ++ typeNameComponent pool (pool.pointeeDef .vec id)
  | leaf => leafName pool leaf
termination_by pool.nameRank ty
decreasing_by all_goals exact pool.nameRank_lt _ _ _ rfl

attribute [grind =] typeNameComponent

def dropFnName (pool : NamePool) (ty : Ty) : Option (List Char) :=
  match ty with
  | .struct id =>
    if typeNeedsDrop pool.toLayoutPool ty then some ("__gruel_drop_".toList ++ pool.structName id)
    else none
  | .array id =>
    if typeNeedsDrop pool.toLayoutPool ty then
      some ("__gruel_drop_array_".toList ++ typeNameComponent pool (pool.arrayDef id).1 ++
        '_' :: decimal (pool.arrayDef id).2)
    else none
  | .enum id =>
    if typeNeedsDrop pool.toLayoutPool ty then some ("__gruel_drop_".toList ++ pool.enumName id)
    else none
  | _ => none

theorem typeNameComponent_leaf (leaf : pool.wrapping ty = none) : typeNameComponent pool ty = leafName pool ty := by
  cases ty <;> first | (simp [typeNameComponent]; done) | cases leaf

theorem typeNameComponent_wrap {wrapper : Wrapper} {part : Ty} (wraps : pool.wrapping ty = some (wrapper, part)) :
    typeNameComponent pool ty = wrapper.opening ++ typeNameComponent pool part ++ wrapper.closing := by
  cases ty <;> cases wraps <;> simp only [typeNameComponent]
  case array => rfl
  all_goals exact (List.append_nil _).symm

def openings : List (List Char) :=
  ["array_".toList, "ptr_const_".toList, "ptr_mut_".toList, "ref_".toList, "mut_ref_".toList,
    "slice_".toList, "mut_slice_".toList, "vec_".toList]

def openingOf (text : List Char) : Option (List Char) :=
  openings.find? fun opening => opening.isPrefixOf text

theorem idxOf_opening (wrapper : Wrapper) : openings.idxOf wrapper.opening = wrapper.ctorIdx := by
  cases wrapper <;> rfl

theorem openingOf_wrap (wrapper : Wrapper) (rest : List Char) :
    openingOf (wrapper.opening ++ rest) = some wrapper.opening := by
  cases wrapper <;> rfl

theorem openingOf_leaf (leaf : pool.wrapping ty = none) (unnamed : ∀ id, ty ≠ .struct id) :
    openingOf (leafName pool ty) = none := by
  cases ty <;> first | (cases leaf; done) | exact absurd rfl (unnamed _) | rfl

theorem underscore_notMem_decimal (number : Nat) : '_' ∉ (decimal number).reverse := by
  intro member
  exact absurd (isDigit_of_mem_decimal (List.mem_reverse.mp member)) (by decide)

/-- The length of an array is behind the last separator. -/
theorem append_decimal_inj {text otherText : List Char} {length otherLength : Nat}
    (same : text ++ '_' :: decimal length = otherText ++ '_' :: decimal otherLength) :
    length = otherLength ∧ text = otherText := by
  have flipped := congrArg List.reverse same
  simp only [List.reverse_append, List.reverse_cons, List.append_assoc, List.singleton_append] at flipped
  obtain ⟨digits, texts⟩ := append_mark_inj (underscore_notMem_decimal length)
    (underscore_notMem_decimal otherLength) flipped
  exact ⟨decimal_injective (List.reverse_injective digits), List.reverse_injective texts⟩

theorem wrapped_inj {wrapper otherWrapper : Wrapper} {text otherText : List Char}
    (same : wrapper.opening ++ text ++ wrapper.closing = otherWrapper.opening ++ otherText ++ otherWrapper.closing) :
    wrapper = otherWrapper ∧ text = otherText := by
  rw [List.append_assoc, List.append_assoc] at same
  have starts : wrapper.opening = otherWrapper.opening := by
    simpa [openingOf_wrap, Option.some.injEq] using congrArg openingOf same
  have constructors := congrArg openings.idxOf starts
  rw [idxOf_opening, idxOf_opening] at constructors
  rw [starts] at same
  have bodies := List.append_cancel_left same
  cases wrapper with
  | array length =>
    cases otherWrapper with
    | array otherLength =>
      obtain ⟨rfl, rfl⟩ := append_decimal_inj bodies
      exact ⟨rfl, rfl⟩
    | _ => cases constructors
  | _ =>
    cases otherWrapper <;> first
      | exact ⟨rfl, List.append_cancel_right bodies⟩
      | cases constructors

def primitives : List Ty :=
  [.i8, .i16, .i32, .i64, .u8, .u16, .u32, .u64, .isize, .usize, .f16, .f32, .f64, .bool, .char,
    .unit, .never, .error, .comptimeType, .comptimeStr, .comptimeInt, .cSchar, .cShort, .cInt,
    .cLong, .cLonglong, .cUchar, .cUshort, .cUint, .cUlong, .cUlonglong, .cFloat, .cDouble, .cVoid]

def leafOf (pool : NamePool) (text : List Char) : Option Ty :=
  match primitives.find? fun ty => leafName pool ty == text with
  | some ty => some ty
  | none =>
    if "enum".toList.isPrefixOf text then some (.enum (Nat.ofDigitChars 10 (text.drop 4) 0))
    else if "module".toList.isPrefixOf text then
      some (.module (Nat.ofDigitChars 10 (text.drop 6) 0))
    else some (.interface (Nat.ofDigitChars 10 (text.drop 9) 0))

theorem ofDigitChars_decimal (number : Nat) : Nat.ofDigitChars 10 (decimal number) 0 = number := by
  unfold decimal
  exact Nat.ofDigitChars_ten_toDigits

theorem leafOf_leafName (leaf : pool.wrapping ty = none) (unnamed : ∀ id, ty ≠ .struct id) :
    leafOf pool (leafName pool ty) = some ty := by
  cases ty with
  | enum id => exact congrArg (fun id => some (Ty.enum id)) (ofDigitChars_decimal id)
  | module id => exact congrArg (fun id => some (Ty.module id)) (ofDigitChars_decimal id)
  | interface id => exact congrArg (fun id => some (Ty.interface id)) (ofDigitChars_decimal id)
  | _ => first | (cases leaf; done) | exact absurd rfl (unnamed _) | rfl

inductive Reads (pool : NamePool) : List Char → Ty → Prop
  | leaf {ty : Ty} : pool.wrapping ty = none → Reads pool (leafName pool ty) ty
  | wrapped {ty part : Ty} {wrapper : Wrapper} {text : List Char} :
      pool.wrapping ty = some (wrapper, part) → Reads pool text part →
      Reads pool (wrapper.opening ++ text ++ wrapper.closing) ty

theorem reads_typeNameComponent (pool : NamePool) (ty : Ty) : Reads pool (typeNameComponent pool ty) ty := by
  cases shape : pool.wrapping ty with
  | none =>
    rw [typeNameComponent_leaf shape]
    exact .leaf shape
  | some wrap =>
    rw [typeNameComponent_wrap shape]
    exact .wrapped shape (reads_typeNameComponent pool wrap.2)
termination_by pool.nameRank ty
decreasing_by exact pool.nameRank_lt _ _ _ shape

theorem reads_iff {text : List Char} : Reads pool text ty ↔ text = typeNameComponent pool ty := by
  constructor
  · intro reads
    induction reads with
    | leaf shape => exact (typeNameComponent_leaf shape).symm
    | wrapped shape _ ih => rw [typeNameComponent_wrap shape, ih]
  · rintro rfl
    exact reads_typeNameComponent pool ty

/-- Under the same wrappers one side has a struct whose name is a spelling of the other side. -/
inductive Clash (pool : NamePool) : Ty → Ty → Prop
  | named {id : StructId} {other : Ty} : .struct id ≠ other → Reads pool (pool.structName id) other →
      Clash pool (.struct id) other
  | namedBy {id : StructId} {ty : Ty} : ty ≠ .struct id → Reads pool (pool.structName id) ty →
      Clash pool ty (.struct id)
  | within {ty other part otherPart : Ty} {wrapper : Wrapper} :
      pool.wrapping ty = some (wrapper, part) → pool.wrapping other = some (wrapper, otherPart) →
      Clash pool part otherPart → Clash pool ty other

theorem typeNameComponent_struct (id : StructId) :
    typeNameComponent pool (.struct id) = pool.structName id := typeNameComponent_leaf rfl

theorem Clash.sameName (clash : Clash pool ty other) : typeNameComponent pool ty = typeNameComponent pool other := by
  induction clash with
  | named _ reads | namedBy _ reads => rw [typeNameComponent_struct, reads_iff.1 reads]
  | within shape otherShape _ ih =>
    rw [typeNameComponent_wrap shape, typeNameComponent_wrap otherShape, ih]

theorem leaf_ne_wrapped {part : Ty} {wrapper : Wrapper} (leaf : pool.wrapping ty = none)
    (unnamed : ∀ id, ty ≠ .struct id) (shape : pool.wrapping other = some (wrapper, part)) :
    typeNameComponent pool ty ≠ typeNameComponent pool other := by
  intro same
  rw [typeNameComponent_leaf leaf, typeNameComponent_wrap shape, List.append_assoc] at same
  have starts := congrArg openingOf same
  rw [openingOf_leaf leaf unnamed, openingOf_wrap] at starts
  cases starts

theorem clash_of_sameName (pool : NamePool) (ty other : Ty) (differ : ty ≠ other)
    (same : typeNameComponent pool ty = typeNameComponent pool other) : Clash pool ty other := by
  by_cases named : ∃ id, ty = .struct id
  · obtain ⟨id, rfl⟩ := named
    exact .named differ (reads_iff.2 ((typeNameComponent_struct id).symm.trans same))
  by_cases otherNamed : ∃ id, other = .struct id
  · obtain ⟨id, rfl⟩ := otherNamed
    exact .namedBy differ (reads_iff.2 ((typeNameComponent_struct id).symm.trans same.symm))
  have unnamed : ∀ id, ty ≠ .struct id := fun id here => named ⟨id, here⟩
  have otherUnnamed : ∀ id, other ≠ .struct id := fun id here => otherNamed ⟨id, here⟩
  cases shape : pool.wrapping ty with
  | none =>
    cases otherShape : pool.wrapping other with
    | none =>
      rw [typeNameComponent_leaf shape, typeNameComponent_leaf otherShape] at same
      have leaves := congrArg (leafOf pool) same
      rw [leafOf_leafName shape unnamed, leafOf_leafName otherShape otherUnnamed] at leaves
      exact absurd (Option.some.inj leaves) differ
    | some wrap => exact absurd same (leaf_ne_wrapped shape unnamed otherShape)
  | some wrap =>
    cases otherShape : pool.wrapping other with
    | none => exact absurd same.symm (leaf_ne_wrapped otherShape otherUnnamed shape)
    | some otherWrap =>
      obtain ⟨_, part⟩ := wrap
      obtain ⟨_, otherPart⟩ := otherWrap
      rw [typeNameComponent_wrap shape, typeNameComponent_wrap otherShape] at same
      obtain ⟨rfl, parts⟩ := wrapped_inj same
      have inner : part ≠ otherPart := by
        rintro rfl
        exact differ (pool.interned ty other (Option.isSome_of_eq_some shape) (shape.trans otherShape.symm))
      exact .within shape otherShape (clash_of_sameName pool part otherPart inner parts)
termination_by pool.nameRank ty
decreasing_by exact pool.nameRank_lt _ _ _ shape

def needsGlue (pool : NamePool) : Ty → Bool
  | .struct id => typeNeedsDrop pool.toLayoutPool (.struct id)
  | .array id => typeNeedsDrop pool.toLayoutPool (.array id)
  | .enum id => typeNeedsDrop pool.toLayoutPool (.enum id)
  | _ => false

/-- What follows `__gruel_drop_`: an enum goes by its name here, and by its number inside an array. -/
def glueText (pool : NamePool) (ty : Ty) : List Char :=
  match ty.asEnum with
  | some id => pool.enumName id
  | none => typeNameComponent pool ty

theorem dropFnName_of_needsGlue (needs : needsGlue pool ty = true) :
    dropFnName pool ty = some ("__gruel_drop_".toList ++ glueText pool ty) := by
  cases ty <;> try cases needs
  case struct id =>
    have text : glueText pool (.struct id) = pool.structName id := typeNameComponent_struct id
    rw [text]
    exact if_pos needs
  case array id =>
    have text : glueText pool (.array id) = _ := typeNameComponent_wrap rfl
    rw [text]
    exact if_pos needs
  case enum id => exact if_pos needs

/-- The name of an enum, or of a struct under the same arrays, is a spelling of the other type. -/
def GlueClash (pool : NamePool) (ty other : Ty) : Prop :=
  match ty.asEnum, other.asEnum with
  | some id, some otherId => pool.enumName id = pool.enumName otherId
  | some id, none => Reads pool (pool.enumName id) other
  | none, some id => Reads pool (pool.enumName id) ty
  | none, none => Clash pool ty other

theorem glueText_eq_iff (differ : ty ≠ other) : glueText pool ty = glueText pool other ↔ GlueClash pool ty other := by
  unfold glueText GlueClash
  cases ty.asEnum with
  | some id =>
    cases other.asEnum with
    | some otherId => exact Iff.rfl
    | none => exact reads_iff.symm
  | none =>
    cases other.asEnum with
    | some id => exact eq_comm.trans reads_iff.symm
    | none => exact ⟨clash_of_sameName pool ty other differ, Clash.sameName⟩

theorem dropFnName_distinct_iff (pool : NamePool) (types : List Ty) :
    (∀ ty ∈ types, ∀ other ∈ types, needsGlue pool ty → needsGlue pool other → ty ≠ other →
        dropFnName pool ty ≠ dropFnName pool other) ↔
      ∀ ty ∈ types, ∀ other ∈ types, needsGlue pool ty → needsGlue pool other → ty ≠ other →
        ¬ GlueClash pool ty other := by
  refine forall₂_congr fun ty _ => forall₂_congr fun other _ => ?_
  refine forall₃_congr fun needs otherNeeds differ => not_congr ?_
  rw [dropFnName_of_needsGlue needs, dropFnName_of_needsGlue otherNeeds, Option.some.injEq,
    List.append_cancel_left_eq, glueText_eq_iff differ]

/-- `struct Foo` and `struct array_Foo_3`, both with a `drop`, and the arrays of `Foo`. -/
def fooPool : NamePool where
  structDef id :=
    { name := if id = 0 then "Foo" else "array_Foo_3", fields := [], destructor := some "drop" }
  enumDef _ := { name := "Choice", variants := [] }
  arrayDef id := (.struct 0, id)
  rank ty := match ty with
    | .array _ => 1
    | _ => 0
  rank_lt ty part member := by
    cases ty <;> cases member
    case array.head => exact Nat.one_pos
    case array.tail member => cases member
  pointeeDef _ id := .enum id
  interned ty other wraps same := by
    cases ty <;> cases wraps <;> cases other <;> cases same <;> rfl
  nameRank ty := match ty with
    | .struct _ | .enum _ => 0
    | _ => 1
  nameRank_lt ty wrapper part wraps := by cases ty <;> cases wraps <;> exact Nat.one_pos

theorem foo_array_shares : needsGlue fooPool (.array 3) ∧ needsGlue fooPool (.struct 1) ∧
      dropFnName fooPool (.array 3) = dropFnName fooPool (.struct 1) := by
  have foo : typeNeedsDrop fooPool.toLayoutPool (.struct 0) := by rw [typeNeedsDrop]; rfl
  have array : needsGlue fooPool (.array 3) := by
    rw [needsGlue, typeNeedsDrop]
    exact foo
  have struct : needsGlue fooPool (.struct 1) := by rw [needsGlue, typeNeedsDrop]; rfl
  refine ⟨array, struct, ?_⟩
  rw [dropFnName_of_needsGlue array, dropFnName_of_needsGlue struct]
  have text : glueText fooPool (.array 3) = _ := typeNameComponent_wrap rfl
  have name : glueText fooPool (.struct 1) = fooPool.structName 1 := typeNameComponent_struct 1
  have element : typeNameComponent fooPool (fooPool.arrayDef 3).1 = _ := typeNameComponent_struct 0
  rw [text, name, element, Wrapper.closing, decimal]
  rfl

end DropNames

end Gruel
