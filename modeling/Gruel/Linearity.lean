import Gruel.LinearityCore
import Mathlib.Logic.Relation

/-!
Which types pass the linearity of what they own on to themselves.
-/

namespace Gruel

namespace OwnershipPool

variable {ty part : Ty}

def ownedParts (pool : OwnershipPool) : Ty → List Ty
  | .struct id => (pool.structDef id).fieldTypes
  | .array id => if 0 < (pool.arrayDef id).2 then [(pool.arrayDef id).1] else []
  | .vec id => [pool.vecDef id]
  | .enum id => (pool.enumDef id).variants.flatMap EnumVariantDef.fields
  | _ => []

def DeclaredLinear (pool : OwnershipPool) : Ty → Prop
  | .struct id => (pool.structDef id).posture = .linear
  | .enum id => (pool.enumDef id).posture = .linear
  | _ => False

/-- The type is linear, or some field, element or payload below it is. -/
def OwnsLinear (pool : OwnershipPool) (ty : Ty) : Prop :=
  ∃ part, Relation.ReflTransGen (fun whole part => part ∈ pool.ownedParts whole) ty part ∧ pool.DeclaredLinear part

def FieldOwnsLinear (pool : OwnershipPool) (id : StructId) : Prop :=
  ∃ ty ∈ (pool.structDef id).fieldTypes, pool.OwnsLinear ty

variable {pool : OwnershipPool}

theorem OwnsLinear.of_part (member : part ∈ pool.ownedParts ty) (owns : pool.OwnsLinear part) :
    pool.OwnsLinear ty := by
  obtain ⟨linear, path, declared⟩ := owns
  exact ⟨linear, .head member path, declared⟩

theorem mem_ownedParts_of_linearParts (member : part ∈ pool.linearParts pool.vecDef ty) :
    part ∈ pool.ownedParts ty := by
  cases ty
  case enum id =>
    simp only [TypeInternPool.linearParts] at member
    split at member
    · cases member
    · exact member
  all_goals first | exact member | cases member

theorem mem_linearParts_of_ownedParts (member : part ∈ pool.ownedParts ty)
    (undeclared : ¬ pool.DeclaredLinear ty) (notStruct : ∀ id, ty ≠ .struct id) :
    part ∈ pool.linearParts pool.vecDef ty := by
  cases ty
  case struct id => exact absurd rfl (notStruct id)
  case enum id =>
    have notLinear : (pool.enumDef id).posture ≠ .linear := undeclared
    simp only [TypeInternPool.linearParts, if_neg notLinear]
    exact member
  all_goals first | exact member | cases member

attribute [local simp] DeclaredLinear

theorem isTypeLinear_iff (ty : Ty) : isTypeLinear pool ty = true ↔
      pool.DeclaredLinear ty ∨ ∃ part ∈ pool.linearParts pool.vecDef ty, isTypeLinear pool part = true := by
  cases ty
  case enum id =>
    rw [isTypeLinear]
    split
    · next declared => simp [declared]
    · next undeclared =>
        simp only [any_attach _ (isTypeLinear pool)]
        rw [any_attach _ fun variant : EnumVariantDef => variant.fields.any (isTypeLinear pool)]
        simp only [DeclaredLinear, undeclared, false_or, TypeInternPool.linearParts, if_false,
          List.any_eq_true, List.mem_flatMap]
        constructor
        · rintro ⟨variant, inEnum, part, inVariant, linear⟩
          exact ⟨part, ⟨variant, inEnum, inVariant⟩, linear⟩
        · rintro ⟨part, ⟨variant, inEnum, inVariant⟩, linear⟩
          exact ⟨variant, inEnum, part, inVariant, linear⟩
  all_goals simp [isTypeLinear, TypeInternPool.linearParts]

theorem ownsLinear_of_isTypeLinear (linear : isTypeLinear pool ty = true) : pool.OwnsLinear ty := by
  induction bounded : pool.linearRank ty using Nat.strongRecOn generalizing ty with
  | ind bound ih =>
    rcases (isTypeLinear_iff ty).mp linear with declared | ⟨part, member, partLinear⟩
    · exact ⟨ty, .refl, declared⟩
    · have smaller := pool.linearRank_lt ty part member
      have owns := ih _ (by omega) partLinear rfl
      exact owns.of_part (mem_ownedParts_of_linearParts member)

theorem propagates_iff : (∀ ty, pool.OwnsLinear ty → isTypeLinear pool ty = true) ↔
      ∀ id, pool.FieldOwnsLinear id → (pool.structDef id).posture = .linear := by
  constructor
  · rintro propagates id ⟨ty, member, owns⟩
    have linear := propagates (.struct id) (owns.of_part member)
    simpa [isTypeLinear] using linear
  · rintro exposed ty ⟨linear, path, declared⟩
    induction path using Relation.ReflTransGen.head_induction_on with
    | refl => exact (isTypeLinear_iff linear).mpr (.inl declared)
    | head member rest partLinear =>
      rename_i whole part
      rw [isTypeLinear_iff]
      by_cases wholeDeclared : pool.DeclaredLinear whole
      · exact .inl wholeDeclared
      · refine .inr ⟨part, mem_linearParts_of_ownedParts member wholeDeclared ?_, partLinear⟩
        rintro id rfl
        exact wholeDeclared (exposed id ⟨part, member, linear, rest, declared⟩)

end OwnershipPool

structure SameShape (first second : OwnershipPool) : Prop where
  fields : ∀ id, (second.structDef id).fields = (first.structDef id).fields
  variants : ∀ id, (second.enumDef id).variants = (first.enumDef id).variants
  arrays : second.arrayDef = first.arrayDef
  vecs : second.vecDef = first.vecDef

namespace SameShape

variable {first second third : OwnershipPool}

theorem refl (pool : OwnershipPool) : SameShape pool pool := ⟨fun _ => rfl, fun _ => rfl, rfl, rfl⟩

theorem trans (before : SameShape first second) (after : SameShape second third) : SameShape first third where
  fields id := (after.fields id).trans (before.fields id)
  variants id := (after.variants id).trans (before.variants id)
  arrays := after.arrays.trans before.arrays
  vecs := after.vecs.trans before.vecs

theorem fieldTypes (same : SameShape first second) (id : StructId) :
    (second.structDef id).fieldTypes = (first.structDef id).fieldTypes := by
  rw [StructDef.fieldTypes, same.fields id, StructDef.fieldTypes]

theorem ownedParts (same : SameShape first second) (ty : Ty) : second.ownedParts ty = first.ownedParts ty := by
  cases ty <;> simp [OwnershipPool.ownedParts, same.fieldTypes, same.variants, same.arrays, same.vecs]

theorem ownsLinear (same : SameShape first second)
    (declared : ∀ ty, second.DeclaredLinear ty → first.OwnsLinear ty) {ty : Ty}
    (owns : second.OwnsLinear ty) : first.OwnsLinear ty := by
  obtain ⟨linear, path, isLinear⟩ := owns
  induction path using Relation.ReflTransGen.head_induction_on with
  | refl => exact declared linear isLinear
  | head member _ partOwns =>
    rw [same.ownedParts] at member
    exact partOwns.of_part member

end SameShape

variable {before : OwnershipPool} {completion : Completion} {id : StructId}

structure SetsPosture (before : OwnershipPool) (completion : Completion) (after : OwnershipPool) :
    Prop where
  shape : SameShape before after
  structs : ∀ id, .struct id ≠ completion.ty → (after.structDef id).posture = (before.structDef id).posture
  enums : ∀ id, .enum id ≠ completion.ty → (after.enumDef id).posture = (before.enumDef id).posture
  kept : before.DeclaredLinear completion.ty → after.DeclaredLinear completion.ty
  gained : after.DeclaredLinear completion.ty → before.DeclaredLinear completion.ty ∨
    ∃ part ∈ before.ownedParts completion.ty, isTypeLinear before part = true

theorem SetsPosture.others {after : OwnershipPool} (sets : SetsPosture before completion after)
    {ty : Ty} (other : ty ≠ completion.ty) :
    after.DeclaredLinear ty ↔ before.DeclaredLinear ty := by
  cases ty
  case struct id => rw [OwnershipPool.DeclaredLinear, sets.structs id other]; rfl
  case enum id => rw [OwnershipPool.DeclaredLinear, sets.enums id other]; rfl
  all_goals exact Iff.rfl

theorem SetsPosture.ownsLinear_iff {after : OwnershipPool} (sets : SetsPosture before completion after) (ty : Ty) :
    after.OwnsLinear ty ↔ before.OwnsLinear ty := by
  constructor
  · refine sets.shape.ownsLinear fun declared isLinear => ?_
    by_cases own : declared = completion.ty
    · subst own
      rcases sets.gained isLinear with already | ⟨_, member, linear⟩
      · exact ⟨_, .refl, already⟩
      · exact (OwnershipPool.ownsLinear_of_isTypeLinear linear).of_part member
    · exact ⟨declared, .refl, (sets.others own).mp isLinear⟩
  · have back : SameShape after before :=
      ⟨fun id => (sets.shape.fields id).symm, fun id => (sets.shape.variants id).symm,
        sets.shape.arrays.symm, sets.shape.vecs.symm⟩
    refine back.ownsLinear fun declared isLinear => ⟨declared, .refl, ?_⟩
    by_cases own : declared = completion.ty
    · subst own
      exact sets.kept isLinear
    · exact (sets.others own).mpr isLinear

theorem SetsPosture.unchanged {pool : OwnershipPool} (completion : Completion) : SetsPosture pool completion pool :=
  ⟨.refl pool, fun _ _ => rfl, fun _ _ => rfl, id, .inl⟩

theorem setsPosture_withStructPosture {pool : OwnershipPool} (own : completion.ty = .struct id)
    (posture : Posture) (unset : (pool.structDef id).posture = .affine)
    (gained : posture = .linear → ∃ part ∈ pool.ownedParts (.struct id), isTypeLinear pool part = true) :
    SetsPosture pool completion (pool.withStructPosture id posture) where
  shape := by
    refine ⟨fun other => ?_, fun _ => rfl, rfl, rfl⟩
    simp only [OwnershipPool.withStructPosture]
    split
    · next same => rw [same]
    · rfl
  structs otherId other := by
    have differs : otherId ≠ id := by
      rintro rfl
      exact other own.symm
    simp [OwnershipPool.withStructPosture, if_neg differs]
  enums _ _ := rfl
  kept linear := by
    rw [own] at linear
    have isLinear : (pool.structDef id).posture = .linear := linear
    rw [unset] at isLinear
    cases isLinear
  gained linear := by
    rw [own] at linear ⊢
    simp only [OwnershipPool.DeclaredLinear, OwnershipPool.withStructPosture, if_true] at linear
    exact .inr (gained linear)

theorem setsPosture_withEnumPosture {pool : OwnershipPool} {id : EnumId}
    (own : completion.ty = .enum id) (posture : Posture)
    (unset : (pool.enumDef id).posture = .affine) (notLinear : (pool.enumDef id).posture ≠ .linear)
    (gained : posture = .linear → ∃ part ∈ pool.ownedParts (.enum id), isTypeLinear pool part = true) :
    SetsPosture pool completion (pool.withEnumPosture id posture notLinear) where
  shape := by
    refine ⟨fun _ => rfl, fun other => ?_, rfl, rfl⟩
    simp only [OwnershipPool.withEnumPosture]
    split
    · next same => rw [same]
    · rfl
  structs _ _ := rfl
  enums otherId other := by
    have differs : otherId ≠ id := by
      rintro rfl
      exact other own.symm
    simp [OwnershipPool.withEnumPosture, if_neg differs]
  kept linear := by
    rw [own] at linear
    have isLinear : (pool.enumDef id).posture = .linear := linear
    rw [unset] at isLinear
    cases isLinear
  gained linear := by
    rw [own] at linear ⊢
    simp only [OwnershipPool.DeclaredLinear, OwnershipPool.withEnumPosture, if_true] at linear
    exact .inr (gained linear)

theorem anonStructPosture_ne_linear (pool : OwnershipPool) (fields : List StructField) :
    anonStructPosture pool fields ≠ .linear := by
  unfold anonStructPosture
  split <;> decide

theorem anonEnumPosture_eq_linear_iff (pool : OwnershipPool) (id : EnumId) :
    anonEnumPosture pool (pool.enumDef id).variants = .linear ↔
      ∃ part ∈ pool.ownedParts (.enum id), isTypeLinear pool part = true := by
  have payloads : ((pool.enumDef id).variants.any fun variant =>
      variant.fields.any (isTypeLinear pool)) = true ↔
      ∃ part ∈ pool.ownedParts (.enum id), isTypeLinear pool part = true := by
    simp only [List.any_eq_true, OwnershipPool.ownedParts, List.mem_flatMap]
    constructor
    · rintro ⟨variant, inEnum, part, inVariant, linear⟩
      exact ⟨part, ⟨variant, inEnum, inVariant⟩, linear⟩
    · rintro ⟨part, ⟨variant, inEnum, inVariant⟩, linear⟩
      exact ⟨variant, inEnum, part, inVariant, linear⟩
  rw [← payloads]
  unfold anonEnumPosture
  split
  · next linear => simp [linear]
  · next notLinear =>
      simp only [notLinear]
      split <;> decide

theorem inferredPosture_eq_linear_iff (pool : OwnershipPool) (members : List Member) (hasDrop : Bool) :
    inferredPosture pool members hasDrop = .linear ↔ ∃ ty ∈ members.map Member.ty, isTypeLinear pool ty = true := by
  have someLinear : (members.any fun member => isTypeLinear pool member.ty) = true ↔
      ∃ ty ∈ members.map Member.ty, isTypeLinear pool ty = true := by
    simp
  rw [← someLinear]
  unfold inferredPosture
  split
  · next linear => simp [linear]
  · next notLinear =>
      simp only [notLinear]
      split <;> decide

theorem map_ty_structMembers (definition : StructDef) :
    (structMembers definition).map Member.ty = definition.fieldTypes := by
  rw [structMembers, List.map_map]
  rfl

theorem map_ty_enumMembers (definition : EnumDef) : (enumMembers definition).map Member.ty =
      definition.variants.flatMap EnumVariantDef.fields := by
  have ofVariant : ∀ variant : EnumVariantDef,
      (variantMembers definition.name variant).map Member.ty = variant.fields := by
    intro variant
    rw [variantMembers, List.map_map]
    exact List.zipIdx_map_fst 0 variant.fields
  rw [enumMembers, List.map_flatMap]
  simp [ofVariant]

/-- A completion that the code reaches with the definition as it was registered. -/
def Registered (pool : OwnershipPool) : Completion → Prop
  | .anonStruct id false => (pool.structDef id).posture = .affine
  | .anonEnum id false => (pool.enumDef id).posture = .affine
  | _ => True

theorem complete_setsPosture {after : OwnershipPool} (registered : Registered before completion)
    (completed : complete before completion = .ok after) : SetsPosture before completion after := by
  cases completion with
  | anonStruct id marked =>
    cases marked with
    | true =>
      cases completed
      exact .unchanged _
    | false =>
      cases completed
      exact setsPosture_withStructPosture rfl _ registered fun linear =>
        absurd linear (anonStructPosture_ne_linear _ _)
  | anonEnum id marked =>
    cases marked with
    | true =>
      cases completed
      exact .unchanged _
    | false =>
      have unset : (before.enumDef id).posture = .affine := registered
      simp only [complete, Bool.false_eq_true, if_false, dif_pos unset] at completed
      cases completed
      exact setsPosture_withEnumPosture rfl _ unset _ (anonEnumPosture_eq_linear_iff before id).mp
  | structDecl id declaredAffine hasDrop =>
    simp only [complete] at completed
    cases checked : checkMembers before "struct" (before.structDef id).name
        (declaredPosture (before.structDef id).posture declaredAffine) "field"
        (structMembers (before.structDef id)) with
    | error mismatch =>
      rw [checked] at completed
      cases completed
    | ok _ =>
      rw [checked] at completed
      cases declared : declaredPosture (before.structDef id).posture declaredAffine with
      | some posture =>
        rw [declared] at completed
        cases completed
        exact .unchanged _
      | none =>
        rw [declared] at completed
        cases completed
        have unset : (before.structDef id).posture = .affine := by
          cases posture : (before.structDef id).posture with
          | affine => rfl
          | _ => rw [posture] at declared; cases declared
        refine setsPosture_withStructPosture rfl _ unset fun linear => ?_
        rw [inferredPosture_eq_linear_iff, map_ty_structMembers] at linear
        exact linear
  | enumDecl id declaredAffine hasDrop =>
    simp only [complete] at completed
    cases checked : checkMembers before "enum" (before.enumDef id).name
        (declaredPosture (before.enumDef id).posture declaredAffine) "variant field"
        (enumMembers (before.enumDef id)) with
    | error mismatch =>
      rw [checked] at completed
      cases completed
    | ok _ =>
      rw [checked] at completed
      by_cases unset : (before.enumDef id).posture = .affine
      · cases declared : declaredPosture (before.enumDef id).posture declaredAffine with
        | some posture =>
          simp only [dif_pos unset, declared] at completed
          cases completed
          exact .unchanged _
        | none =>
          simp only [dif_pos unset, declared] at completed
          cases completed
          refine setsPosture_withEnumPosture rfl _ unset _ fun linear => ?_
          rw [inferredPosture_eq_linear_iff, map_ty_enumMembers] at linear
          exact linear
      · simp only [dif_neg unset] at completed
        cases completed
        exact .unchanged _

/-- The posture given to a struct shows what its fields own. `start` is the pool as registered,
`before` the pool the completion reads. -/
def Exposes (start before : OwnershipPool) : Completion → Prop
  | .anonStruct id _ => start.FieldOwnsLinear id → (start.structDef id).posture = .linear
  | .structDecl id declaredAffine _ => start.FieldOwnsLinear id → (start.structDef id).posture = .linear ∨
        (start.structDef id).posture = .affine ∧ declaredAffine = false ∧
          ∃ ty ∈ (start.structDef id).fieldTypes, isTypeLinear before ty = true
  | _ => True

/-- Every completion of the run does. -/
def ExposesAll (start : OwnershipPool) : OwnershipPool → List Completion → Prop
  | _, [] => True
  | before, completion :: completions =>
    Exposes start before completion ∧
      ∀ after, complete before completion = .ok after → ExposesAll start after completions

theorem complete_anonStruct_linear {after : OwnershipPool} {marked : Bool}
    (registered : Registered before (.anonStruct id marked))
    (completed : complete before (.anonStruct id marked) = .ok after) :
    (after.structDef id).posture = .linear ↔ (before.structDef id).posture = .linear := by
  cases marked with
  | true =>
    cases completed
    exact Iff.rfl
  | false =>
    cases completed
    have unset : (before.structDef id).posture = .affine := registered
    simp only [OwnershipPool.withStructPosture, if_true, unset]
    exact ⟨fun linear => absurd linear (anonStructPosture_ne_linear _ _), fun linear => by
      cases linear⟩

theorem complete_structDecl_linear {after : OwnershipPool} {declaredAffine hasDrop : Bool}
    (completed : complete before (.structDecl id declaredAffine hasDrop) = .ok after) :
    (after.structDef id).posture = .linear ↔ (before.structDef id).posture = .linear ∨
      (before.structDef id).posture = .affine ∧ declaredAffine = false ∧
        ∃ ty ∈ (before.structDef id).fieldTypes, isTypeLinear before ty = true := by
  simp only [complete] at completed
  cases checked : checkMembers before "struct" (before.structDef id).name
      (declaredPosture (before.structDef id).posture declaredAffine) "field"
      (structMembers (before.structDef id)) with
  | error mismatch =>
    rw [checked] at completed
    cases completed
  | ok _ =>
    rw [checked] at completed
    cases posture : (before.structDef id).posture with
    | affine =>
      rw [posture] at completed
      cases declaredAffine with
      | true =>
        cases completed
        simp [posture]
      | false =>
        cases completed
        simp only [OwnershipPool.withStructPosture, if_true, inferredPosture_eq_linear_iff, map_ty_structMembers]
        simp
    | copy | linear =>
      rw [posture] at completed
      cases completed
      simp [posture]

theorem exposes_iff {start after : OwnershipPool} (same : SameShape start before)
    (untouched : ∀ id, completion.ty = .struct id → (before.structDef id).posture = (start.structDef id).posture)
    (registered : Registered before completion)
    (completed : complete before completion = .ok after) :
    Exposes start before completion ↔ ∀ id, completion.ty = .struct id →
      start.FieldOwnsLinear id → (after.structDef id).posture = .linear := by
  have isSelf : ∀ {id other : StructId}, Ty.struct other = .struct id → other = id := fun shape =>
    Ty.struct.inj shape
  cases completion with
  | anonStruct id marked =>
    have linear := complete_anonStruct_linear registered completed
    rw [untouched id rfl] at linear
    constructor
    · rintro exposes other shape owns
      rw [← isSelf shape] at owns ⊢
      exact linear.mpr (exposes owns)
    · intro each owns
      exact linear.mp (each id rfl owns)
  | structDecl id declaredAffine hasDrop =>
    have linear := complete_structDecl_linear completed
    rw [untouched id rfl, same.fieldTypes id] at linear
    constructor
    · rintro exposes other shape owns
      rw [← isSelf shape] at owns ⊢
      exact linear.mpr (exposes owns)
    · intro each owns
      exact linear.mp (each id rfl owns)
  | anonEnum id marked => exact ⟨fun _ _ shape => (by cases shape), fun _ => trivial⟩
  | enumDecl id declaredAffine hasDrop =>
    exact ⟨fun _ _ shape => (by cases shape), fun _ => trivial⟩

theorem Registered.after {after : OwnershipPool} {other : Completion}
    (registered : Registered before other) (sets : SetsPosture before completion after)
    (differs : other.ty ≠ completion.ty) : Registered after other := by
  cases other with
  | anonStruct id marked =>
    cases marked with
    | true => trivial
    | false => exact (sets.structs id differs).trans registered
  | anonEnum id marked =>
    cases marked with
    | true => trivial
    | false => exact (sets.enums id differs).trans registered
  | _ => trivial

theorem completeAll_spec {start final : OwnershipPool} {completions : List Completion}
    (same : SameShape start before) (owns : ∀ ty, before.OwnsLinear ty ↔ start.OwnsLinear ty)
    (untouched : ∀ id, .struct id ∈ completions.map Completion.ty →
      (before.structDef id).posture = (start.structDef id).posture)
    (once : (completions.map Completion.ty).Nodup)
    (registered : ∀ completion ∈ completions, Registered before completion)
    (completed : completeAll before completions = .ok final) :
    SameShape start final ∧ (∀ ty, final.OwnsLinear ty ↔ start.OwnsLinear ty) ∧
      (∀ id, .struct id ∉ completions.map Completion.ty →
        (final.structDef id).posture = (before.structDef id).posture) ∧
      (ExposesAll start before completions ↔ ∀ id, .struct id ∈ completions.map Completion.ty →
        start.FieldOwnsLinear id → (final.structDef id).posture = .linear) := by
  induction completions generalizing before with
  | nil =>
    cases completed
    exact ⟨same, owns, fun _ _ => rfl, fun _ _ member => (by cases member), fun _ => trivial⟩
  | cons completion completions ih =>
    rw [List.map_cons, List.nodup_cons] at once
    obtain ⟨fresh, onceRest⟩ := once
    cases step : complete before completion with
    | error mismatch =>
      simp only [completeAll, step] at completed
      cases completed
    | ok after =>
      simp only [completeAll, step] at completed
      have rest : completeAll after completions = .ok final := completed
      have ownRegistered := registered completion (.head _)
      have sets := complete_setsPosture ownRegistered step
      have differs : ∀ other ∈ completions, other.ty ≠ completion.ty := by
        intro other member shape
        exact fresh (shape ▸ List.mem_map_of_mem member)
      have untouchedRest : ∀ id, .struct id ∈ completions.map Completion.ty →
          (after.structDef id).posture = (start.structDef id).posture := by
        intro id member
        obtain ⟨other, inRest, shape⟩ := List.mem_map.mp member
        rw [sets.structs id (shape ▸ differs other inRest)]
        exact untouched id (.tail _ member)
      obtain ⟨finalSame, finalOwns, finalOthers, finalExposes⟩ :=
        ih (same.trans sets.shape) (fun ty => (sets.ownsLinear_iff ty).trans (owns ty)) untouchedRest onceRest
          (fun other member =>
            (registered other (.tail _ member)).after sets (differs other member)) rest
      have own := exposes_iff same (fun id shape => untouched id (shape ▸ (.head _))) ownRegistered step
      refine ⟨finalSame, finalOwns, fun id absent => ?_, ?_⟩
      · rw [List.map_cons, List.mem_cons, not_or] at absent
        rw [finalOthers id absent.2, sets.structs id absent.1]
      · have tail : (∀ next, complete before completion = .ok next →
            ExposesAll start next completions) ↔ ExposesAll start after completions := by
          constructor
          · exact fun each => each after step
          · rintro exposes next stepNext
            rw [step] at stepNext
            cases stepNext
            exact exposes
        rw [ExposesAll, tail, own, finalExposes]
        constructor
        · rintro ⟨here, later⟩ id member fieldOwns
          rcases List.mem_cons.mp member with shape | inRest
          · rw [finalOthers id (shape ▸ fresh)]
            exact here id shape.symm fieldOwns
          · exact later id inRest fieldOwns
        · intro each
          refine ⟨fun id shape fieldOwns => ?_, fun id inRest fieldOwns =>
            each id (.tail _ inRest) fieldOwns⟩
          have posture := each id (by rw [List.map_cons, shape]; exact (.head _)) fieldOwns
          rwa [finalOthers id (shape ▸ fresh)] at posture

/-- Once every definition has its posture, linearity reaches every type that owns a linear one
exactly when each struct with such a field was declared linear, or is a declared struct without a
marker one of whose fields was already linear when its turn came. An anonymous struct never
becomes linear by itself. -/
theorem linearity_propagates_iff {start final : OwnershipPool} {completions : List Completion}
    (once : (completions.map Completion.ty).Nodup)
    (registered : ∀ completion ∈ completions, Registered start completion)
    (covered : ∀ id, (start.structDef id).fields ≠ [] → .struct id ∈ completions.map Completion.ty)
    (completed : completeAll start completions = .ok final) :
    (∀ ty, final.OwnsLinear ty → isTypeLinear final ty = true) ↔ ExposesAll start start completions := by
  obtain ⟨same, owns, _, exposes⟩ := completeAll_spec (.refl start) (fun _ => Iff.rfl)
    (fun _ _ => rfl) once registered completed
  have fields : ∀ id, final.FieldOwnsLinear id ↔ start.FieldOwnsLinear id := by
    intro id
    simp [OwnershipPool.FieldOwnsLinear, same.fieldTypes id, owns]
  rw [OwnershipPool.propagates_iff, exposes]
  simp only [fields]
  constructor
  · exact fun each id _ => each id
  · intro each id fieldOwns
    refine each id (covered id fun none => ?_) fieldOwns
    obtain ⟨ty, member, _⟩ := fieldOwns
    rw [StructDef.fieldTypes, none] at member
    cases member

namespace LinearSample

def pool (tuple : Posture) : OwnershipPool where
  structDef
    | 0 => { name := "Handle", fields := [], posture := .linear }
    | 1 => { name := "__anon_struct_1", fields := [⟨"0", .struct 0⟩], posture := tuple }
    | 2 => { name := "Outer", fields := [⟨"inner", .struct 3⟩] }
    | 3 => { name := "Inner", fields := [⟨"handle", .struct 0⟩] }
    | _ => { name := "Empty", fields := [] }
  enumDef _ := { name := "E", variants := [] }
  arrayDef _ := (.u8, 0)
  vecDef _ := .u8
  rank
    | .struct 1 | .struct 3 => 1
    | .struct 2 => 2
    | .array _ => 1
    | _ => 0
  rank_lt ty part member := by
    cases ty
    case struct id =>
      simp only [TypeInternPool.components, StructDef.fieldTypes] at member
      split at member <;> simp_all
    all_goals simp_all [TypeInternPool.components]
  linearRank
    | .vec _ => 1
    | _ => 0
  linearRank_lt ty part member := by
    cases ty <;> simp_all [TypeInternPool.linearParts]

def declared : List Completion :=
  [.structDecl 0 false false, .structDecl 3 false false, .structDecl 2 false false]

def inner (tuple : Posture) : OwnershipPool := (pool tuple).withStructPosture 3 .linear

theorem complete_handle (tuple : Posture) : complete (pool tuple) (.structDecl 0 false false) = .ok (pool tuple) := by
  simp [complete, checkMembers, structMembers, declaredPosture, pool, bind, Except.bind]

theorem complete_inner (tuple : Posture) : complete (pool tuple) (.structDecl 3 false false) = .ok (inner tuple) := by
  simp [complete, checkMembers, structMembers, declaredPosture, pool, bind, Except.bind, inner,
    checkPostureAgainstDeclared, violates, inferredPosture, isTypeLinear]

attribute [local simp] OwnershipPool.withStructPosture

theorem complete_outer (tuple : Posture) : complete (inner tuple) (.structDecl 2 false false) =
      .ok ((inner tuple).withStructPosture 2 .linear) := by
  simp [complete, checkMembers, structMembers, declaredPosture, pool, bind, Except.bind, inner,
    checkPostureAgainstDeclared, violates, inferredPosture, isTypeLinear]

theorem inner_before_outer : ExposesAll (pool .linear) (pool .linear) (.anonStruct 1 true :: declared) ∧
      ∃ final, completeAll (pool .linear) (.anonStruct 1 true :: declared) = .ok final ∧
        ∀ ty, final.OwnsLinear ty → isTypeLinear final ty = true := by
  have marked : complete (pool .linear) (.anonStruct 1 true) = .ok (pool .linear) := rfl
  have completed : completeAll (pool .linear) (.anonStruct 1 true :: declared) =
      .ok ((inner .linear).withStructPosture 2 .linear) := by
    simp [completeAll, declared, marked, complete_handle, complete_inner, complete_outer, bind, Except.bind]
  have exposes : ExposesAll (pool .linear) (pool .linear) (.anonStruct 1 true :: declared) := by
    refine ⟨fun _ => rfl, fun after step => ?_⟩
    cases step
    refine ⟨fun _ => .inl rfl, fun after step => ?_⟩
    cases step
    refine ⟨fun _ => .inr ⟨rfl, rfl, .struct 0, List.mem_singleton.mpr rfl, ?_⟩, fun after step => ?_⟩
    · simp [isTypeLinear, pool]
    rw [complete_inner] at step
    cases step
    refine ⟨fun _ => .inr ⟨rfl, rfl, .struct 3, List.mem_singleton.mpr rfl, ?_⟩, fun after step => trivial⟩
    simp [isTypeLinear, inner]
  refine ⟨exposes, _, completed, (linearity_propagates_iff (by decide) ?_ ?_ completed).mpr exposes⟩
  · simp [Registered, declared]
  · rintro (_ | _ | _ | _ | _) hasFields
    · exact absurd rfl hasFields
    · decide
    · decide
    · decide
    · exact absurd rfl hasFields

/-- Neither the tuple nor the struct declared before its field's type becomes linear. -/
theorem linear_values_hidden : ∃ final, completeAll (pool .affine)
        [.structDecl 0 false false, .anonStruct 1 false, .structDecl 2 false false,
          .structDecl 3 false false] = .ok final ∧
      (final.OwnsLinear (.struct 1) ∧ isTypeLinear final (.struct 1) = false) ∧
      final.OwnsLinear (.struct 2) ∧ isTypeLinear final (.struct 2) = false := by
  refine ⟨(((pool .affine).withStructPosture 1 .affine).withStructPosture 2 .affine).withStructPosture
    3 .linear, ?_, ⟨?_, ?_⟩, ?_, ?_⟩
  · simp [completeAll, complete, checkMembers, structMembers, declaredPosture, pool, bind,
      Except.bind, checkPostureAgainstDeclared, violates, inferredPosture, isTypeLinear, isTypeCopy,
      classifyPosture, anonStructPosture, isCopyInPool]
  · exact ⟨.struct 0, .single (List.mem_singleton.mpr rfl), rfl⟩
  · simp [isTypeLinear]
  · exact ⟨.struct 3, .single (List.mem_singleton.mpr rfl), rfl⟩
  · simp [isTypeLinear]

end LinearSample

end Gruel
