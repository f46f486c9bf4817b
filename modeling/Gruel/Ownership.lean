import Gruel.Layout
import Gruel.OwnershipCore

/-!
What Copy and drop glue say about each other.
-/

namespace Gruel

attribute [local simp] TypeInternPool.components

variable {pool : LayoutPool}

def TypeInternPool.IsOwner (pool : TypeInternPool) : Ty → Prop
  | .vec _ => True
  | .struct id => (pool.structDef id).destructor.isSome
  | .enum id => (pool.enumDef id).destructor.isSome
  | _ => False

def LayoutPool.Owns (pool : LayoutPool) (ty : Ty) : Prop :=
  ∃ part, Relation.ReflTransGen (fun whole part => part ∈ pool.components whole) ty part ∧ pool.IsOwner part

theorem LayoutPool.owns_iff {ty : Ty} :
    pool.Owns ty ↔ pool.IsOwner ty ∨ ∃ part ∈ pool.components ty, pool.Owns part := by
  constructor
  · rintro ⟨owner, path, isOwner⟩
    rcases Relation.ReflTransGen.cases_head path with rfl | ⟨part, member, rest⟩
    · exact .inl isOwner
    · exact .inr ⟨part, member, owner, rest, isOwner⟩
  · rintro (isOwner | ⟨part, member, owner, rest, isOwner⟩)
    · exact ⟨ty, .refl, isOwner⟩
    · exact ⟨owner, .head member rest, isOwner⟩

theorem LayoutPool.Owns.of_component {ty part : Ty} (member : part ∈ pool.components ty)
    (owns : pool.Owns part) : pool.Owns ty :=
  LayoutPool.owns_iff.2 (.inr ⟨part, member, owns⟩)

theorem mem_components_enum {id : EnumId} {part : Ty} : part ∈ pool.components (.enum id) ↔
      ∃ variant ∈ (pool.enumDef id).variants, part ∈ variant.fields :=
  List.mem_flatMap

theorem typeNeedsDrop_iff_owns (pool : LayoutPool) (ty : Ty) : typeNeedsDrop pool ty = true ↔ pool.Owns ty := by
  induction ty using pool.induction with
  | step ty ih =>
    rw [LayoutPool.owns_iff]
    cases ty
    case struct id =>
        rw [typeNeedsDrop_struct, Bool.or_eq_true, List.any_eq_true]
        exact or_congr Iff.rfl (exists_congr fun part => and_congr_right (ih part))
    case array id =>
        rw [typeNeedsDrop_array, ih _ (List.mem_singleton.mpr rfl)]
        simp [TypeInternPool.IsOwner]
    case enum id =>
        rw [typeNeedsDrop_enum, Bool.or_eq_true, List.any_eq_true]
        refine or_congr Iff.rfl ?_
        constructor
        · rintro ⟨variant, inEnum, anyField⟩
          obtain ⟨part, inVariant, needsDrop⟩ := List.any_eq_true.mp anyField
          have member := mem_components_enum.2 ⟨variant, inEnum, inVariant⟩
          exact ⟨part, member, (ih part member).mp needsDrop⟩
        · rintro ⟨part, member, owns⟩
          obtain ⟨variant, inEnum, inVariant⟩ := mem_components_enum.1 member
          exact ⟨variant, inEnum, List.any_eq_true.mpr ⟨part, inVariant, (ih part member).mpr owns⟩⟩
    all_goals simp [typeNeedsDrop, TypeInternPool.IsOwner]

namespace OwnershipPool

inductive Moved (pool : OwnershipPool) : Ty → Prop
  | vec (id : PointeeId) : Moved pool (.vec id)
  | incomplete : Moved pool .cVoid
  | struct {id : StructId} (marked : (pool.structDef id).posture ≠ .copy) : Moved pool (.struct id)
  | linearEnum {id : EnumId} (marked : (pool.enumDef id).posture = .linear) : Moved pool (.enum id)
  | linearPayload {id : EnumId} {payload : Ty} (marked : (pool.enumDef id).posture = .affine)
      (member : payload ∈ pool.components (.enum id))
      (linear : isTypeLinear pool payload = true) : Moved pool (.enum id)
  | array {id : ArrayTypeId} (nonempty : (pool.arrayDef id).2 ≠ 0)
      (element : Moved pool (pool.arrayDef id).1) : Moved pool (.array id)

/-- The parts that are duplicated with a value because its own type is marked Copy, or is
an array. -/
def CopiedPart (pool : OwnershipPool) (whole part : Ty) : Prop := match whole with
  | .struct id => (pool.structDef id).posture = .copy ∧ part ∈ pool.components (.struct id)
  | .enum id => (pool.enumDef id).posture = .copy ∧ part ∈ pool.components (.enum id)
  | .array id => (pool.arrayDef id).2 ≠ 0 ∧ part = (pool.arrayDef id).1
  | _ => False

/-- The definitions that are Copy although an owner is stored in them: one marked Copy
that has a destructor or a moved part with an owner, an affine enum without a linear
payload, and an empty array. -/
def DuplicatesOwner (pool : OwnershipPool) (ty : Ty) : Prop := match ty with
  | .struct id =>
    (pool.structDef id).posture = .copy ∧ ((pool.structDef id).destructor.isSome ∨
      ∃ part ∈ pool.components (.struct id), pool.Moved part ∧ pool.Owns part)
  | .enum id =>
    ((pool.enumDef id).posture = .copy ∧ ((pool.enumDef id).destructor.isSome ∨
      ∃ part ∈ pool.components (.enum id), pool.Moved part ∧ pool.Owns part)) ∨
    ((pool.enumDef id).posture = .affine ∧ (∀ part ∈ pool.components (.enum id), isTypeLinear pool part = false) ∧
      pool.Owns (.enum id))
  | .array id => (pool.arrayDef id).2 = 0 ∧ pool.Owns (pool.arrayDef id).1
  | _ => False

end OwnershipPool

variable {pool : OwnershipPool} {ty part : Ty}

theorem isTypeCopy_struct (pool : OwnershipPool) (id : StructId) :
    isTypeCopy pool (.struct id) = decide ((pool.structDef id).posture = .copy) := by
  rw [isTypeCopy]

theorem isTypeCopy_enum_iff (pool : OwnershipPool) (id : EnumId) :
    isTypeCopy pool (.enum id) = true ↔ (pool.enumDef id).posture = .copy ∨ ((pool.enumDef id).posture = .affine ∧
        ∀ part ∈ pool.components (.enum id), isTypeLinear pool part = false) := by
  rw [isTypeCopy]
  cases posture : (pool.enumDef id).posture with
  | copy => simp
  | linear => simp
  | affine =>
    simp only [Bool.not_eq_true', List.any_eq_false, reduceCtorEq, false_or, true_and]
    constructor
    · intro none part member
      obtain ⟨variant, inEnum, inVariant⟩ := mem_components_enum.1 member
      have inVariantNone := none variant inEnum
      rw [Bool.not_eq_true, List.any_eq_false] at inVariantNone
      simpa using inVariantNone part inVariant
    · intro none variant inEnum
      simp only [Bool.not_eq_true, List.any_eq_false]
      intro part inVariant
      simpa using none part (mem_components_enum.2 ⟨variant, inEnum, inVariant⟩)

theorem moved_of_not_copy (notCopy : isTypeCopy pool ty = false) : pool.Moved ty := by
  induction ty using pool.induction with
  | step ty ih =>
    cases ty
    case vec id => exact .vec id
    case cVoid => exact .incomplete
    case struct id =>
        rw [isTypeCopy_struct, decide_eq_false_iff_not] at notCopy
        exact .struct notCopy
    case enum id =>
        have neither := (not_congr (isTypeCopy_enum_iff pool id)).mp (by simp [notCopy])
        cases posture : (pool.enumDef id).posture with
        | copy => exact absurd (.inl posture) neither
        | linear => exact .linearEnum posture
        | affine =>
          have someLinear : ¬∀ part ∈ pool.components (.enum id), isTypeLinear pool part = false :=
            fun none => neither (.inr ⟨posture, none⟩)
          push Not at someLinear
          obtain ⟨part, member, linear⟩ := someLinear
          exact .linearPayload posture member (by simpa using linear)
    case array id =>
        rw [isTypeCopy_array, Bool.or_eq_false_iff, decide_eq_false_iff_not] at notCopy
        exact .array notCopy.1 (ih _ (List.mem_singleton.mpr rfl) notCopy.2)
    all_goals simp [isTypeCopy] at notCopy

theorem mem_components_of_copiedPart {whole : Ty} (copied : pool.CopiedPart whole part) :
    part ∈ pool.components whole := by
  cases whole
  case struct id => exact copied.2
  case enum id => exact copied.2
  case array id => exact List.mem_singleton.mpr copied.2
  all_goals exact copied.elim

theorem isTypeCopy_of_copiedPart {whole : Ty} (copied : pool.CopiedPart whole part)
    (copy : isTypeCopy pool part = true) : isTypeCopy pool whole = true := by
  cases whole
  case struct id => simp [isTypeCopy_struct, copied.1]
  case enum id => exact (isTypeCopy_enum_iff pool id).mpr (.inl copied.1)
  case array id =>
      obtain ⟨_, rfl⟩ := copied
      simp [isTypeCopy_array, copy]
  all_goals exact copied.elim

theorem OwnershipPool.DuplicatesOwner.spec (duplicates : pool.DuplicatesOwner ty) :
    isTypeCopy pool ty = true ∧ pool.Owns ty := by
  cases ty
  case struct id =>
      obtain ⟨marked, destructor | ⟨part, member, _, owns⟩⟩ := duplicates
      · exact ⟨by simp [isTypeCopy_struct, marked], LayoutPool.owns_iff.2 (.inl destructor)⟩
      · exact ⟨by simp [isTypeCopy_struct, marked], .of_component member owns⟩
  case enum id =>
      rw [isTypeCopy_enum_iff]
      rcases duplicates with ⟨marked, destructor | ⟨part, member, _, owns⟩⟩ | ⟨marked, none, owns⟩
      · exact ⟨.inl marked, LayoutPool.owns_iff.2 (.inl destructor)⟩
      · exact ⟨.inl marked, .of_component member owns⟩
      · exact ⟨.inr ⟨marked, none⟩, owns⟩
  case array id =>
      obtain ⟨empty, owns⟩ := duplicates
      exact ⟨by simp [isTypeCopy_array, empty], .of_component (List.mem_singleton.mpr rfl) owns⟩
  all_goals exact duplicates.elim

theorem duplicates_along (path : Relation.ReflTransGen pool.CopiedPart ty part)
    (duplicates : pool.DuplicatesOwner part) : isTypeCopy pool ty = true ∧ pool.Owns ty := by
  induction path using Relation.ReflTransGen.head_induction_on with
  | refl => exact duplicates.spec
  | head copied _ ih =>
    obtain ⟨copy, owns⟩ := ih
    exact ⟨isTypeCopy_of_copiedPart copied copy, .of_component (mem_components_of_copiedPart copied) owns⟩

theorem exists_duplicatesOwner (copy : isTypeCopy pool ty = true) (owns : pool.Owns ty) :
    ∃ part, Relation.ReflTransGen pool.CopiedPart ty part ∧ pool.DuplicatesOwner part := by
  induction ty using pool.induction with
  | step ty ih =>
    -- A marked definition duplicates its own owner, or passes it on to a Copy part.
    have viaPart : ∀ part, pool.CopiedPart ty part → pool.Owns part → (pool.Moved part → pool.DuplicatesOwner ty) →
        ∃ part, Relation.ReflTransGen pool.CopiedPart ty part ∧ pool.DuplicatesOwner part := by
      intro part copied partOwns moved
      by_cases partCopy : isTypeCopy pool part = true
      · obtain ⟨site, path, duplicates⟩ :=
          ih part (mem_components_of_copiedPart copied) partCopy partOwns
        exact ⟨site, .head copied path, duplicates⟩
      · exact ⟨ty, .refl, moved (moved_of_not_copy (by simpa using partCopy))⟩
    cases ty
    case struct id =>
        rw [isTypeCopy_struct, decide_eq_true_eq] at copy
        rcases LayoutPool.owns_iff.1 owns with destructor | ⟨part, member, partOwns⟩
        · exact ⟨_, .refl, copy, .inl destructor⟩
        · exact viaPart part ⟨copy, member⟩ partOwns fun moved =>
            ⟨copy, .inr ⟨part, member, moved, partOwns⟩⟩
    case enum id =>
        rcases (isTypeCopy_enum_iff pool id).mp copy with marked | ⟨marked, none⟩
        · rcases LayoutPool.owns_iff.1 owns with destructor | ⟨part, member, partOwns⟩
          · exact ⟨_, .refl, .inl ⟨marked, .inl destructor⟩⟩
          · exact viaPart part ⟨marked, member⟩ partOwns fun moved =>
              .inl ⟨marked, .inr ⟨part, member, moved, partOwns⟩⟩
        · exact ⟨_, .refl, .inr ⟨marked, none, owns⟩⟩
    case array id =>
        rcases LayoutPool.owns_iff.1 owns with owner | ⟨part, member, partOwns⟩
        · exact owner.elim
        · obtain rfl := List.mem_singleton.mp member
          by_cases empty : (pool.arrayDef id).2 = 0
          · exact ⟨_, .refl, empty, partOwns⟩
          · rw [isTypeCopy_array, decide_eq_false empty, Bool.false_or] at copy
            obtain ⟨site, path, duplicates⟩ := ih _ member copy partOwns
            exact ⟨site, .head ⟨empty, rfl⟩ path, duplicates⟩
    case vec id => simp [isTypeCopy] at copy
    all_goals
      rcases LayoutPool.owns_iff.1 owns with owner | ⟨part, member, _⟩
      · exact owner.elim
      · cases member

/-- A type that is Copy needs no drop glue, exactly if no definition in it, reached along
the parts copied with its values, is Copy although it stores an owner. -/
theorem copy_needs_no_drop_iff (pool : OwnershipPool) (ty : Ty) :
    (isTypeCopy pool ty = true → typeNeedsDrop pool.toLayoutPool ty = false) ↔
      ∀ part, Relation.ReflTransGen pool.CopiedPart ty part → ¬pool.DuplicatesOwner part := by
  constructor
  · intro safe part path duplicates
    have whole := duplicates_along path duplicates
    have needsDrop := (typeNeedsDrop_iff_owns pool.toLayoutPool ty).mpr whole.2
    rw [safe whole.1] at needsDrop
    cases needsDrop
  · intro clean copy
    by_contra needsDrop
    have owns := (typeNeedsDrop_iff_owns pool.toLayoutPool ty).mp (by simpa using needsDrop)
    obtain ⟨part, path, duplicates⟩ := exists_duplicatesOwner copy owns
    exact clean part path duplicates

def ownerPool : OwnershipPool where
  structDef _ := { name := "S", fields := [] }
  enumDef
    | 0 => { name := "E", variants := [{ name := "A", fields := [.vec 0] }] }
    | _ =>
      { name := "D", variants := [{ name := "A", fields := [] }], posture := .copy, destructor := some "D.__drop" }
  arrayDef _ := (.vec 0, 0)
  vecDef _ := .u8
  rank
    | .enum _ | .array _ => 1
    | _ => 0
  rank_lt ty part member := by
    cases ty
    case enum id => cases id <;> simp_all
    all_goals simp_all [StructDef.fieldTypes]
  linearRank
    | .enum _ => 2
    | .vec _ => 1
    | _ => 0
  linearRank_lt ty part member := by
    cases ty
    case enum id => cases id <;> simp_all [TypeInternPool.linearParts]
    all_goals simp_all [TypeInternPool.linearParts]

theorem copy_types_with_drop_glue : (isTypeCopy ownerPool (.enum 0) = true ∧
      typeNeedsDrop ownerPool.toLayoutPool (.enum 0) = true) ∧
    (isTypeCopy ownerPool (.enum 1) = true ∧ typeNeedsDrop ownerPool.toLayoutPool (.enum 1) = true) ∧
    (isTypeCopy ownerPool (.array 0) = true ∧ typeNeedsDrop ownerPool.toLayoutPool (.array 0) = true) := by
  refine ⟨⟨?_, ?_⟩, ⟨?_, ?_⟩, ⟨?_, ?_⟩⟩
  · simp [isTypeCopy, ownerPool, isTypeLinear]
  · simp [typeNeedsDrop, ownerPool]
  · simp [isTypeCopy, ownerPool]
  · simp [typeNeedsDrop, ownerPool]
  · simp [isTypeCopy, ownerPool]
  · simp [typeNeedsDrop, ownerPool]

end Gruel
