import Gruel.LayoutCore

/-!
What `@mark(c)` promises about niches: a C-layout enum keeps its own tag, and no enclosing
enum stores its tag in the forbidden bit patterns of a C-layout type.
-/

namespace Gruel

namespace CLayout

variable {payload : Ty} {pool : LayoutPool} {id : EnumId}

def isCLayout (pool : LayoutPool) : Ty → Bool
  | .struct id => (pool.structDef id).isCLayout
  | .enum id => (pool.enumDef id).isCLayout
  | _ => false

def optionPayload (definition : EnumDef) : Option Ty :=
  match definition.variants.map EnumVariantDef.fields with
  | [[], [payload]] => some payload
  | [[payload], []] => some payload
  | _ => none

/-- The first niche of the whole type is a niche of `part`, which is stored in it by value.
A struct passes on the niches of its fields in order, and an enum whose tag sits in a niche
of its payload passes on what remains of that niche. -/
inductive FirstNicheOf (pool : LayoutPool) : Ty → Ty → Prop
  | own {ty : Ty} : (layoutOf .machine pool ty).niches ≠ [] → FirstNicheOf pool ty ty
  | field {id : StructId} {earlier later : List Ty} {field part : Ty} :
      (pool.structDef id).fieldTypes = earlier ++ field :: later →
      (∀ other ∈ earlier, (layoutOf .machine pool other).size = 0 ∨ (layoutOf .machine pool other).niches = []) →
      (layoutOf .machine pool field).size ≠ 0 →
      FirstNicheOf pool field part → FirstNicheOf pool (.struct id) part
  | payload {id : EnumId} {payload part : Ty} : optionPayload (pool.enumDef id) = some payload →
      (layoutOf .machine pool (.enum id)).niches ≠ [] →
      FirstNicheOf pool payload part → FirstNicheOf pool (.enum id) part

def usesNiche (layout : Layout) : Bool := match layout.discriminant with
  | some (.niche ..) => true
  | _ => false

def usesSeparateTag (layout : Layout) : Bool := match layout.discriminant with
  | some (.separate ..) => true
  | _ => false

/-- The enum consumes a niche of `part`: its tag sits in the first niche of its payload, and
that niche is one of `part`. -/
def Consumes (pool : LayoutPool) (id : EnumId) (part : Ty) : Prop :=
  usesNiche (layoutOf .machine pool (.enum id)) = true ∧
    ∃ payload, optionPayload (pool.enumDef id) = some payload ∧ FirstNicheOf pool payload part

structure KeepsPromise (pool : LayoutPool) (id : EnumId) : Prop where
  separate : (pool.enumDef id).isCLayout = true → usesSeparateTag (layoutOf .machine pool (.enum id)) = true
  unconsumed : ∀ part, isCLayout pool part = true → ¬ Consumes pool id part

/-- Number of forbidden bit patterns. -/
def count (niche : NicheRange) : Nat := niche.stop - niche.start + 1

/-- How many bit patterns the first niche of a type forbids, and the types it belongs to,
outermost first. -/
structure Spare where
  patterns : Nat
  lenders : List Ty
  deriving DecidableEq, Repr

def Spare.through (spare : Spare) (ty : Ty) : Spare := { spare with lenders := ty :: spare.lenders }

def unitOnlySpare (id : EnumId) (definition : EnumDef) : Option Spare :=
  let tags := NicheRange.maxForWidth (discriminantLayout definition).size + 1
  if definition.isUnitOnly ∧ 0 < definition.variants.length ∧ definition.variants.length < tags then
    some { patterns := tags - definition.variants.length, lenders := [.enum id] }
  else none

def Spare.consumeOne (spare : Spare) (id : EnumId) : Option Spare := if 1 < spare.patterns then
    some { patterns := spare.patterns - 1, lenders := .enum id :: spare.lenders }
  else none

theorem optionPayload_cases {definition : EnumDef} (shape : optionPayload definition = some payload) :
    definition.variants.map EnumVariantDef.fields = [[], [payload]] ∨
      definition.variants.map EnumVariantDef.fields = [[payload], []] := by
  unfold optionPayload at shape
  split at shape
  · rename_i found
    cases shape
    exact .inl found
  · rename_i found
    cases shape
    exact .inr found
  · cases shape

theorem optionPayload_component (shape : optionPayload (pool.enumDef id) = some payload) :
    payload ∈ pool.components (.enum id) := by
  simp only [TypeInternPool.components, List.flatMap_def]
  rcases optionPayload_cases shape with fields | fields
  · simp [fields]
  · simp [fields]

def spareOf (pool : LayoutPool) (ty : Ty) : Option Spare := match ty with
  | .bool => some { patterns := 254, lenders := [.bool] }
  | .char => some { patterns := 0x800, lenders := [.char] }
  | .struct id =>
    ((pool.structDef id).fieldTypes.attach.findSome? fun field =>
      if (layoutOf .machine pool field.1).size = 0 then none else spareOf pool field.1).map
        fun spare => spare.through (.struct id)
  | .enum id =>
    match _shape : optionPayload (pool.enumDef id) with
    | some payload => (spareOf pool payload).bind fun spare => spare.consumeOne id
    | none => unitOnlySpare id (pool.enumDef id)
  | _ => none
termination_by pool.rank ty
decreasing_by
  · exact pool.rank_field id field.2
  · exact pool.rank_lt (.enum id) payload (optionPayload_component _shape)

attribute [grind =] spareOf

theorem spareOf_struct (pool : LayoutPool) (id : StructId) : spareOf pool (.struct id) =
      ((pool.structDef id).fieldTypes.findSome? fun field =>
        if (layoutOf .machine pool field).size = 0 then none else spareOf pool field).map
          fun spare => spare.through (.struct id) := by
  rw [spareOf]
  conv_rhs => rw [← List.attach_map_subtype_val (pool.structDef id).fieldTypes, List.findSome?_map]
  rfl

theorem spareOf_option (shape : optionPayload (pool.enumDef id) = some payload) :
    spareOf pool (.enum id) = (spareOf pool payload).bind fun spare => spare.consumeOne id := by
  rw [spareOf]
  split
  · rename_i other found
    rw [shape] at found
    cases found
    rfl
  · rename_i found
    rw [shape] at found
    cases found

theorem spareOf_tagged (shape : optionPayload (pool.enumDef id) = none) :
    spareOf pool (.enum id) = unitOnlySpare id (pool.enumDef id) := by
  rw [spareOf]
  split
  · rename_i other found
    rw [shape] at found
    cases found
  · rfl

end CLayout

end Gruel
