import Gruel.Layout
import Gruel.Lib.ByteMemory

/-!
Byte encodings of run-time values.  A value is written field by field at the offsets the
layout itself computes; an enum stores its variant by the discriminant strategy of its
layout.  Padding bytes are unconstrained.
-/

namespace Gruel

open ByteMemory

inductive Datum
  | scalar (bits : Nat)
  | record (fields : List Datum)
  | variant (index : Nat) (fields : List Datum)

def Ty.isLeaf : Ty → Bool
  | .struct _ | .array _ | .enum _ => false
  | _ => true

def ValidBits : Ty → Nat → Prop
  | .bool, bits => bits ≤ 1
  | .char, bits => bits < 0xD800 ∨ 0xDFFF < bits ∧ bits ≤ 0x10FFFF
  | _, _ => True

attribute [grind =] ValidBits

def fieldOffsets (words : Words) (pool : LayoutPool) (id : StructId) : List (Option Nat) :=
  structFieldOffsets words {} ((pool.structDef id).fieldTypes.map (layoutOf words pool))

def payloadFieldOffset (pool : LayoutPool) (fields : List Ty) (index : Nat) : Nat :=
  ((fields.take index).map fun field => (layoutOf .machine pool field).size).sum

def strategyOf (pool : LayoutPool) (id : EnumId) : Option DiscriminantStrategy :=
  (layoutOf .machine pool (.enum id)).discriminant

inductive Encodes (pool : LayoutPool) (memory : Memory) : Ty → Datum → Nat → Prop
  | leaf {ty : Ty} {bits base : Nat} (isLeaf : ty.isLeaf = true) (valid : ValidBits ty bits)
      (stored : readLe memory base (layoutOf .machine pool ty).size = bits) :
      Encodes pool memory ty (.scalar bits) base
  | struct {id : StructId} {fields : List Datum} {base : Nat}
      (arity : fields.length = (pool.structDef id).fieldTypes.length)
      (placed : ∀ (index : Nat) ty datum offset, (pool.structDef id).fieldTypes[index]? = some ty →
        fields[index]? = some datum →
        (fieldOffsets .machine pool id)[index]? = some (some offset) →
        Encodes pool memory ty datum (base + offset)) :
      Encodes pool memory (.struct id) (.record fields) base
  | array {id : ArrayTypeId} {elems : List Datum} {base : Nat} (arity : elems.length = (pool.arrayDef id).2)
      (placed : ∀ (index : Nat) datum, elems[index]? = some datum → Encodes pool memory (pool.arrayDef id).1 datum
          (base + index * (layoutOf .machine pool (pool.arrayDef id).1).size)) :
      Encodes pool memory (.array id) (.record elems) base
  | separate {id : EnumId} {index base tagOffset tagWidth payloadOffset : Nat}
      {variant : EnumVariantDef} {fields : List Datum}
      (strategy : strategyOf pool id = some (.separate tagOffset tagWidth payloadOffset))
      (declared : (pool.enumDef id).variants[index]? = some variant)
      (arity : fields.length = variant.fields.length)
      (tagged : readLe memory (base + tagOffset) tagWidth = index)
      (placed : ∀ (position : Nat) ty datum, variant.fields[position]? = some ty → fields[position]? = some datum →
        Encodes pool memory ty datum (base + payloadOffset + payloadFieldOffset pool variant.fields position)) :
      Encodes pool memory (.enum id) (.variant index fields) base
  | nicheUnit {id : EnumId} {base unitVariant dataVariant nicheOffset nicheWidth nicheValue : Nat}
      (strategy : strategyOf pool id = some (.niche unitVariant dataVariant nicheOffset nicheWidth nicheValue))
      (tagged : readLe memory (base + nicheOffset) nicheWidth = nicheValue) :
      Encodes pool memory (.enum id) (.variant unitVariant []) base
  | nicheData {id : EnumId} {base unitVariant dataVariant nicheOffset nicheWidth nicheValue : Nat}
      {variant : EnumVariantDef} {ty : Ty} {datum : Datum}
      (strategy : strategyOf pool id = some (.niche unitVariant dataVariant nicheOffset nicheWidth nicheValue))
      (declared : (pool.enumDef id).variants[dataVariant]? = some variant)
      (payload : variant.fields = [ty]) (placed : Encodes pool memory ty datum base) :
      Encodes pool memory (.enum id) (.variant dataVariant [datum]) base

def NicheRange.Contains (niche : NicheRange) (bits : Nat) : Prop :=
  niche.start ≤ bits ∧ bits ≤ niche.stop

/-- Every advertised niche lies inside the type, and no encoding of a value reads as one of
its forbidden patterns. -/
def NichesSound (pool : LayoutPool) (ty : Ty) : Prop :=
  ∀ niche ∈ (layoutOf .machine pool ty).niches, niche.offset + niche.width ≤ (layoutOf .machine pool ty).size ∧
      ∀ memory datum base, Encodes pool memory ty datum base →
        ¬ niche.Contains (readLe memory (base + niche.offset) niche.width)

/-- The unit variant of a niche-encoded enum and any encoded payload of its data variant
differ in the niche bytes. -/
def UnitVariantDistinct (pool : LayoutPool) (ty : Ty) : Prop :=
  ∀ unitVariant dataVariant nicheOffset nicheWidth nicheValue, (layoutOf .machine pool ty).discriminant =
        some (.niche unitVariant dataVariant nicheOffset nicheWidth nicheValue) →
      ∀ unitMemory dataMemory datum base, Encodes pool unitMemory ty (.variant unitVariant []) base →
        Encodes pool dataMemory ty (.variant dataVariant [datum]) base →
        readLe unitMemory (base + nicheOffset) nicheWidth ≠ readLe dataMemory (base + nicheOffset) nicheWidth

def NicheOffsetsFit (pool : LayoutPool) (ty : Ty) : Prop :=
  pool.Everywhere (fun part => ∀ niche ∈ (layoutOf .exact pool part).niches, niche.offset < 2 ^ 32) ty

end Gruel
