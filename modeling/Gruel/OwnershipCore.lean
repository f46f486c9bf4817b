import Gruel.LayoutCore

/-!
The three recursions over the type graph that decide what happens to a value:
`is_type_linear`, `Sema::is_type_copy` and `type_needs_drop`.
-/

namespace Gruel

def TypeInternPool.linearParts (pool : TypeInternPool) (vecDef : PointeeId → Ty) : Ty → List Ty
  | .array id => if 0 < (pool.arrayDef id).2 then [(pool.arrayDef id).1] else []
  | .vec id => [vecDef id]
  | .enum id =>
    if (pool.enumDef id).posture = .linear then []
    else (pool.enumDef id).variants.flatMap EnumVariantDef.fields
  | _ => []

/-- A complete pool on which the walk for linearity, which also follows vectors, ends. -/
structure OwnershipPool extends LayoutPool where
  vecDef : PointeeId → Ty
  linearRank : Ty → Nat
  linearRank_lt : ∀ ty, ∀ part ∈ toTypeInternPool.linearParts vecDef ty, linearRank part < linearRank ty

def isTypeLinear (pool : OwnershipPool) (ty : Ty) : Bool := match ty with
  | .struct id => decide ((pool.structDef id).posture = .linear)
  | .array id => if 0 < (pool.arrayDef id).2 then isTypeLinear pool (pool.arrayDef id).1 else false
  | .vec id => isTypeLinear pool (pool.vecDef id)
  | .enum id =>
    if (pool.enumDef id).posture = .linear then true
    else (pool.enumDef id).variants.attach.any fun variant =>
      variant.1.fields.attach.any fun field => isTypeLinear pool field.1
  | _ => false
termination_by pool.linearRank ty
decreasing_by
  · exact pool.linearRank_lt (.array id) _ (by simp [TypeInternPool.linearParts, *])
  · exact pool.linearRank_lt (.vec id) _ (by simp [TypeInternPool.linearParts])
  · refine pool.linearRank_lt (.enum id) _ ?_
    simp only [TypeInternPool.linearParts, *, if_false]
    exact List.mem_flatMap.mpr ⟨variant.1, variant.2, field.2⟩

def isTypeCopy (pool : OwnershipPool) (ty : Ty) : Bool := match ty with
  | .cVoid => false
  | .enum id =>
    match (pool.enumDef id).posture with
    | .copy => true
    | .linear => false
    | .affine =>
      !(pool.enumDef id).variants.any fun variant =>
        variant.fields.any fun field => isTypeLinear pool field
  | .struct id => decide ((pool.structDef id).posture = .copy)
  | .array id =>
    decide ((pool.arrayDef id).2 = 0) || isTypeCopy pool (pool.arrayDef id).1
  | .vec _ => false
  | _ => true
termination_by pool.rank ty
decreasing_by exact pool.rank_element id

def typeNeedsDrop (pool : LayoutPool) (ty : Ty) : Bool := match ty with
  | .struct id =>
    (pool.structDef id).destructor.isSome ||
      (pool.structDef id).fieldTypes.attach.any fun field => typeNeedsDrop pool field.1
  | .array id => typeNeedsDrop pool (pool.arrayDef id).1
  | .enum id =>
    (pool.enumDef id).destructor.isSome || (pool.enumDef id).variants.attach.any fun variant =>
        variant.1.fields.attach.any fun field => typeNeedsDrop pool field.1
  | .vec _ => true
  | _ => false
termination_by pool.rank ty
decreasing_by
  · exact pool.rank_field id field.2
  · exact pool.rank_element id
  · exact pool.rank_payload id variant.2 field.2

attribute [grind =] typeNeedsDrop isTypeCopy isTypeLinear

theorem any_attach {α : Type} (items : List α) (test : α → Bool) :
    (items.attach.any fun item => test item.1) = items.any test := by
  have unattached : (items.attach.map Subtype.val).any test = items.any test := by
    rw [List.attach_map_subtype_val]
  rw [← unattached, List.any_map]
  rfl

section

variable (pool : LayoutPool)

theorem typeNeedsDrop_struct (id : StructId) :
    typeNeedsDrop pool (.struct id) = ((pool.structDef id).destructor.isSome ||
      (pool.structDef id).fieldTypes.any (typeNeedsDrop pool)) := by
  rw [typeNeedsDrop, any_attach _ (typeNeedsDrop pool)]

theorem typeNeedsDrop_array (id : ArrayTypeId) :
    typeNeedsDrop pool (.array id) = typeNeedsDrop pool (pool.arrayDef id).1 := by
  rw [typeNeedsDrop]

theorem typeNeedsDrop_enum (id : EnumId) : typeNeedsDrop pool (.enum id) = ((pool.enumDef id).destructor.isSome ||
      (pool.enumDef id).variants.any fun variant => variant.fields.any (typeNeedsDrop pool)) := by
  rw [typeNeedsDrop]
  simp only [any_attach _ (typeNeedsDrop pool)]
  rw [any_attach _ fun variant : EnumVariantDef => variant.fields.any (typeNeedsDrop pool)]

theorem typeNeedsDrop_vec (id : PointeeId) : typeNeedsDrop pool (.vec id) = true := by
  rw [typeNeedsDrop]

end

theorem isTypeCopy_array (pool : OwnershipPool) (id : ArrayTypeId) : isTypeCopy pool (.array id) =
      (decide ((pool.arrayDef id).2 = 0) || isTypeCopy pool (pool.arrayDef id).1) := by
  rw [isTypeCopy]

end Gruel
