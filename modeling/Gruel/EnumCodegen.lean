import Gruel.EnumCodegenCore
import Gruel.LlvmTypes

/-!
Enum values survive their run-time encoding.
-/

namespace Gruel

open ByteMemory
open RecordLayout (Shape le_alignUp)

attribute [local simp] EnumVariantDef.hasData

variable {ty : Ty} {value : LlvmVal} {fields : List (Option LlvmVal)}
variable {layouts : List Layout} {enumId : EnumId} {tys : List (Option LlvmTy)}
  {values : List (Option LlvmVal)} {variantIndex : Nat} {undef : Undef} {rest : List NicheRange}

structure Within (shape : Shape) (layout : Layout) : Prop where
  size : shape.size ≤ layout.size
  isAlign : IsAlign shape.align
  align : shape.align ≤ layout.align

theorem alignUp_le_alignUp {value other small large : Nat} (smallAlign : IsAlign small)
    (largeAlign : IsAlign large) (valueLe : value ≤ other) (alignLe : small ≤ large) :
    RecordLayout.alignUp value small ≤ RecordLayout.alignUp other large := by
  apply RecordLayout.alignUp_le_of_dvd smallAlign.pos
  · exact Nat.le_trans valueLe (le_alignUp other large largeAlign.pos)
  · exact Nat.dvd_trans (smallAlign.dvd largeAlign alignLe) (RecordLayout.dvd_alignUp other large)

theorem addField_maxAlign_le (words : Words) (scan : StructScan) (layout : Layout) :
    scan.maxAlign ≤ (scan.addField words layout).maxAlign := by
  unfold StructScan.addField
  split
  · exact Nat.le_refl _
  · exact Nat.le_max_left _ _

theorem scan_maxAlign_le (words : Words) (layouts : List Layout) (scan : StructScan) :
    scan.maxAlign ≤ (layouts.foldl (StructScan.addField words) scan).maxAlign := by
  induction layouts generalizing scan with
  | nil => exact Nat.le_refl _
  | cons layout rest ih =>
    exact Nat.le_trans (addField_maxAlign_le words scan layout) (ih _)

def FieldWithin (layout : Layout) : Option LlvmTy → Prop
  | none => True
  | some ty => layout.size ≠ 0 ∧ Within ty.shape layout

theorem scan_within {lowered : List (Option LlvmTy)} (within : List.Forall₂ FieldWithin layouts lowered)
    (aligned : ∀ layout ∈ layouts, IsAlign layout.align) (scan : StructScan) (start : Nat)
    (startLe : start ≤ scan.offset) (scanAlign : 0 < scan.maxAlign) :
    RecordLayout.endFrom start (LlvmTy.shapes (lowered.filterMap id)) ≤
        (layouts.foldl (StructScan.addField .exact) scan).offset ∧
      IsAlign (RecordLayout.maxAlign (LlvmTy.shapes (lowered.filterMap id))) ∧
      RecordLayout.maxAlign (LlvmTy.shapes (lowered.filterMap id)) ≤
        (layouts.foldl (StructScan.addField .exact) scan).maxAlign := by
  induction within generalizing scan start with
  | nil => exact ⟨startLe, .inl rfl, scanAlign⟩
  | @cons layout lowered layouts rest head tail ih =>
    have layoutAlign := aligned layout (List.mem_cons_self ..)
    have restAligned : ∀ other ∈ layouts, IsAlign other.align := fun other member =>
      aligned other (List.mem_cons_of_mem layout member)
    have alignGrows := addField_maxAlign_le .exact scan layout
    rw [List.foldl_cons]
    cases lowered with
    | none =>
      have offsetGrows : scan.offset ≤ (scan.addField .exact layout).offset :=
        scan_offset_le [layout] scan (by simpa using layoutAlign)
      exact ih restAligned (scan.addField .exact layout) start (by omega) (by omega)
    | some ty =>
      obtain ⟨nonzero, fits⟩ := head
      have kept : (some ty :: rest).filterMap id = ty :: rest.filterMap id := rfl
      have next := StructScan.addField_offset .exact scan nonzero
      rw [Words.exact_u64, alignUp_exact] at next
      have placed := alignUp_le_alignUp fits.isAlign layoutAlign startLe fits.align
      have sizeLe := fits.size
      have nextAlign : (scan.addField .exact layout).maxAlign = max scan.maxAlign layout.align := by
        simp [StructScan.addField, nonzero]
      obtain ⟨endLe, maxIsAlign, _⟩ := ih restAligned (scan.addField .exact layout)
        (RecordLayout.alignUp start ty.shape.align + ty.shape.size) (by omega) (by omega)
      rw [kept, LlvmTy.shapes, RecordLayout.endFrom, RecordLayout.maxAlign]
      refine ⟨endLe, fits.isAlign.max maxIsAlign, ?_⟩
      have alignLe := fits.align
      have carried : (scan.addField .exact layout).maxAlign ≤
          (layouts.foldl (StructScan.addField .exact) (scan.addField .exact layout)).maxAlign :=
        scan_maxAlign_le .exact layouts _
      omega

theorem structLayout_within {lowered : List (Option LlvmTy)} (within : List.Forall₂ FieldWithin layouts lowered)
    (aligned : ∀ layout ∈ layouts, IsAlign layout.align) :
    Within (RecordLayout.record (LlvmTy.shapes (lowered.filterMap id))) (structLayout .exact layouts) := by
  obtain ⟨endLe, maxIsAlign, maxLe⟩ := scan_within within aligned {} 0 (Nat.le_refl _) (by decide)
  have scanAlign := isAlign_scan .exact layouts {} aligned (.inl rfl)
  refine ⟨?_, maxIsAlign, maxLe⟩
  have rounded := alignUp_le_alignUp maxIsAlign scanAlign endLe maxLe
  simp only [RecordLayout.record, RecordLayout.size, structLayout, StructScan.layout, alignUp_exact]
  split
  · exact rounded
  · have one : (layouts.foldl (StructScan.addField .exact) {}).maxAlign = 1 := by
      have := scanAlign.pos
      omega
    rw [one, RecordLayout.alignUp_one] at rounded
    exact rounded

theorem scalar_within {lowered : LlvmTy} (representable : scalarToLlvm ty = some lowered) :
    Within lowered.shape (scalarLayout ty) := by
  have shape : lowered.shape = ⟨(scalarLayout ty).size, (scalarLayout ty).align⟩ := by
    cases ty <;> cases representable <;> rfl
  rw [shape]
  exact ⟨Nat.le_refl _, isAlign_scalarLayout ty, Nat.le_refl _⟩

structure NicheEnum (pool : LayoutPool) (id : EnumId) (unitVariant dataVariant : Nat)
    (unitDef dataDef : EnumVariantDef) (payload : Ty) (niche : NicheRange) : Prop where
  indices : unitVariant = 0 ∧ dataVariant = 1 ∨ unitVariant = 1 ∧ dataVariant = 0
  variants : (pool.enumDef id).variants.length = 2
  unitDeclared : (pool.enumDef id).variants[unitVariant]? = some unitDef
  unitFields : unitDef.fields = []
  dataDeclared : (pool.enumDef id).variants[dataVariant]? = some dataDef
  dataFields : dataDef.fields = [payload]
  component : payload ∈ pool.components (.enum id)
  niches : ∃ rest, (layoutOf .exact pool payload).niches = niche :: rest
  size : (layoutOf .exact pool (.enum id)).size = (layoutOf .exact pool payload).size
  remaining : ∀ left ∈ (layoutOf .exact pool (.enum id)).niches, left = { niche with start := niche.start + 1 }
  strategy : strategyOf pool id =
    some (.niche unitVariant dataVariant (niche.offset % 2 ^ 32) niche.width niche.start)

theorem nicheEnum_of_encoded {pool : LayoutPool} {id : EnumId} (fits : Fits pool (.enum id))
    (encoded : NicheEncodedEnum pool id) :
    ∃ unitVariant dataVariant unitDef dataDef payload niche,
      NicheEnum pool id unitVariant dataVariant unitDef dataDef payload niche := by
  unfold NicheEncodedEnum at encoded
  rw [Option.isSome_iff_exists] at encoded
  obtain ⟨layout, found⟩ := encoded
  obtain ⟨payload, inEnum, unitVariant, dataVariant, dataDef, niche, rest, declared, fields, niches,
    equal⟩ := nicheEncoded_payload found
  obtain ⟨_, _, _, shapeUnit, shapeData, shape, _, shapeEqual⟩ :=
    tryNicheEncodedEnumLayout_cases found
  have indices : shapeUnit = unitVariant ∧ shapeData = dataVariant := by
    rw [equal, Layout.mk.injEq, Option.some.injEq, DiscriminantStrategy.niche.injEq] at shapeEqual
    exact ⟨shapeEqual.2.2.2.1.symm, shapeEqual.2.2.2.2.1.symm⟩
  obtain ⟨rfl, rfl⟩ := indices
  have count : (variantLayouts .exact pool (pool.enumDef id)).length = 2 := by
    rcases shape with ⟨variants, -, -⟩ | ⟨variants, -, -⟩ <;> rw [variants] <;> rfl
  have unitLayout : (variantLayouts .exact pool (pool.enumDef id))[shapeUnit]? = some [] := by
    rcases shape with ⟨variants, rfl, -⟩ | ⟨variants, rfl, -⟩ <;> rw [variants] <;> rfl
  rw [variantLayouts, List.length_map] at count
  rw [variantLayouts, List.getElem?_map, Option.map_eq_some_iff] at unitLayout
  obtain ⟨unitDef, unitDeclared, unitFields⟩ := unitLayout
  have exactLayout : layoutOf .exact pool (.enum id) = layout := by
    rw [layoutOf_enum, enumLayout_of_encoded found]
  refine ⟨shapeUnit, shapeData, unitDef, dataDef, payload, niche, ?_⟩
  refine ⟨?_, count, unitDeclared, List.map_eq_nil_iff.mp unitFields, declared, fields, inEnum,
    ⟨rest, niches⟩, ?_, ?_, ?_⟩
  · rcases shape with ⟨-, both⟩ | ⟨-, both⟩
    · exact .inl both
    · exact .inr both
  · rw [exactLayout, equal]
  · intro _ member
    rw [exactLayout, equal] at member
    split at member
    · exact List.mem_singleton.mp member
    · cases member
  · rw [strategyOf, layoutOf_machine fits, exactLayout, equal]
    rfl

theorem NicheEnum.not_isUnitOnly {pool : LayoutPool} {id : EnumId} {unitVariant dataVariant : Nat}
    {unitDef dataDef : EnumVariantDef} {payload : Ty} {niche : NicheRange}
    (shape : NicheEnum pool id unitVariant dataVariant unitDef dataDef payload niche) :
    ¬ (pool.enumDef id).isUnitOnly = true := by
  intro unitOnly
  have empty := (isUnitOnly_iff _).mp unitOnly dataDef (List.mem_of_getElem? shape.dataDeclared)
  rw [shape.dataFields] at empty
  cases empty

theorem NicheEnum.lowered {pool : LayoutPool} {id : EnumId} {unitVariant dataVariant : Nat}
    {unitDef dataDef : EnumVariantDef} {payload : Ty} {niche : NicheRange}
    (shape : NicheEnum pool id unitVariant dataVariant unitDef dataDef payload niche)
    (fits : Fits pool (.enum id)) :
    gruelTypeToLlvm pool (.enum id) = some (.array .i8 ((layoutOf .exact pool (.enum id)).size % 2 ^ 32)) := by
  have strategy := shape.strategy
  rw [strategyOf] at strategy
  rw [gruelTypeToLlvm_enum, enumToLlvm, if_neg shape.not_isUnitOnly, strategy, layoutOf_machine fits,
    Layout.narrow_size]

theorem dataEnum_within {pool : LayoutPool} (fits : Fits pool (.enum enumId))
    (plain : ¬ NicheEncodedEnum pool enumId) (data : ¬ (pool.enumDef enumId).isUnitOnly = true)
    {lowered : LlvmTy} (representable : gruelTypeToLlvm pool (.enum enumId) = some lowered) :
    Within lowered.shape (layoutOf .exact pool (.enum enumId)) := by
  have shape : llvmShape pool (.enum enumId) = lowered.shape := by
    rw [llvmShape, representable]
  rw [← shape]
  by_cases isC : (pool.enumDef enumId).isCLayout = true
  · obtain ⟨payload, _, _, shapes, -, exactLayout⟩ := c_dataEnumShapes fits plain data isC
    have isAlign := shapes.elemAlign
    rw [shapes.llvmShape_eq, exactLayout]
    by_cases empty : payload = 0
    · simp only [empty, if_true]
      refine ⟨?_, .inr (.inr (.inl rfl)), Nat.le_max_left _ _⟩
      rcases isAlign with rfl | rfl | rfl | rfl <;> decide
    · simp only [empty, if_false]
      refine ⟨?_, shapes.widthAlign.max isAlign, Nat.le_refl _⟩
      unfold RecordLayout.alignUp elemCount
      rcases isAlign with rfl | rfl | rfl | rfl <;> simp <;> omega
  · obtain ⟨_, width, payload, shapes, exactLayout⟩ := plain_dataEnumShapes fits plain data isC
    have isAlign := shapes.widthAlign
    rw [shapes.llvmShape_eq, exactLayout, Nat.max_eq_left (show 1 ≤ width from isAlign.pos)]
    by_cases empty : payload = 0
    · simp only [empty, if_true]
      exact ⟨Nat.le_refl _, isAlign, Nat.le_refl _⟩
    · simp only [empty, if_false]
      refine ⟨?_, isAlign, Nat.le_refl _⟩
      rw [RecordLayout.alignUp_one, Nat.one_mul]
      exact RecordLayout.alignUp_mono isAlign.pos (by omega)

theorem enum_within {pool : LayoutPool} (fits : Fits pool (.enum enumId)) {lowered : LlvmTy}
    (representable : gruelTypeToLlvm pool (.enum enumId) = some lowered) :
    Within lowered.shape (layoutOf .exact pool (.enum enumId)) := by
  by_cases encoded : NicheEncodedEnum pool enumId
  · obtain ⟨_, _, _, _, _, _, shape⟩ := nicheEnum_of_encoded fits encoded
    have lowers := shape.lowered fits
    rw [representable, Option.some.injEq] at lowers
    subst lowers
    refine ⟨?_, .inl rfl, (isAlign_layoutOf .exact pool _).pos⟩
    simp only [LlvmTy.shape, LlvmTy.i8, LlvmTy.scalarShape]
    rw [if_pos (by decide)]
    simp only [Nat.one_mul]
    exact Nat.mod_le _ _
  · by_cases unitOnly : (pool.enumDef enumId).isUnitOnly = true
    · have lowers : gruelTypeToLlvm pool (.enum enumId) = scalarToLlvm (pool.enumDef enumId).discriminantType := by
        rw [gruelTypeToLlvm_enum, enumToLlvm, if_pos unitOnly]
      rw [lowers] at representable
      have within := scalar_within representable
      rw [layoutOf_separate encoded]
      simp only [enumLayoutSeparate, unitOnly, if_true, unitOnlyEnumLayout]
      exact ⟨within.size, within.isAlign, within.align⟩
    · exact dataEnum_within fits encoded unitOnly representable

theorem lowered_within {pool : LayoutPool} (fits : Fits pool ty) {lowered : LlvmTy}
    (representable : gruelTypeToLlvm pool ty = some lowered) :
    Within lowered.shape (layoutOf .exact pool ty) := by
  induction ty using pool.induction generalizing lowered with
  | step ty ih =>
    cases ty
    case struct structId =>
      have shape := llvmShape_struct pool structId
      rw [llvmShape, representable] at shape
      simp only at shape
      rw [shape, layoutOf_struct]
      apply structLayout_within
      · rw [List.forall₂_map_left_iff, List.forall₂_map_right_iff, List.forall₂_same]
        intro part member
        cases found : gruelTypeToLlvm pool part with
        | none => trivial
        | some fieldTy =>
          refine ⟨?_, ih part member (fits.component member) found⟩
          intro empty
          rw [(gruelTypeToLlvm_eq_none_iff pool part).mpr empty] at found
          cases found
      · intro _ member
        obtain ⟨part, -, rfl⟩ := List.mem_map.mp member
        exact isAlign_layoutOf .exact pool part
    case array arrayId =>
      have inside : (pool.arrayDef arrayId).1 ∈ pool.components (.array arrayId) :=
        List.mem_singleton.mpr rfl
      rw [gruelTypeToLlvm_array, arrayToLlvm] at representable
      split at representable
      · cases representable
      · rw [Option.map_eq_some_iff] at representable
        obtain ⟨_, found, rfl⟩ := representable
        have within := ih _ inside (fits.component inside) found
        rw [layoutOf_array]
        refine ⟨?_, within.isAlign, within.align⟩
        exact Nat.mul_le_mul within.size (Nat.mod_le _ _)
    case enum enumId => exact enum_within fits representable
    all_goals
      rw [gruelTypeToLlvm_isLeaf pool rfl] at representable
      rw [layoutOf_isLeaf .exact pool rfl]
      exact scalar_within representable

def FieldTyped : Option LlvmTy → Option LlvmVal → Prop
  | none, none => True
  | some ty, some value => ty.HasVal value
  | _, _ => False

theorem hasVals_filterMap (typed : List.Forall₂ FieldTyped tys values) :
    LlvmTy.HasVals (tys.filterMap id) (values.filterMap id) := by
  induction typed with
  | nil => trivial
  | @cons ty value tys values head tail ih =>
    match ty, value, head with
    | none, none, _ => exact ih
    | some ty, some value, head => exact ⟨head, ih⟩

theorem fieldTyped_of_values {pool : LayoutPool} {tys : List Ty} (arity : fields.length = tys.length)
    (present : ∀ (index : Nat) ty value, tys[index]? = some ty → fields[index]? = some (some value) →
        ∃ lowered, gruelTypeToLlvm pool ty = some lowered ∧ lowered.HasVal value)
    (absent : ∀ (index : Nat) ty, tys[index]? = some ty → fields[index]? = some none →
      gruelTypeToLlvm pool ty = none) :
    List.Forall₂ FieldTyped (tys.map (gruelTypeToLlvm pool)) fields := by
  induction tys generalizing fields with
  | nil =>
    rw [List.length_nil, List.length_eq_zero_iff] at arity
    subst arity
    exact .nil
  | cons ty tys ih =>
    cases fields with
    | nil => simp at arity
    | cons field fields =>
      refine .cons ?_ (ih (by simpa using arity) (fun index => present (index + 1)) (fun index => absent (index + 1)))
      cases field with
      | none =>
        rw [absent 0 ty rfl rfl]
        trivial
      | some value =>
        obtain ⟨lowered, found, typed⟩ := present 0 ty value rfl rfl
        rw [found]
        exact typed

theorem strategyOf_separate {pool : LayoutPool} {id : EnumId} (fits : Fits pool (.enum id))
    (plain : ¬ NicheEncodedEnum pool id) :
    ∃ tagWidth payloadOffset, strategyOf pool id = some (.separate 0 tagWidth payloadOffset) := by
  obtain ⟨payloadOffset, strategy⟩ := discriminant_enumLayoutSeparate .exact (pool.enumDef id)
    (variantLayouts .exact pool (pool.enumDef id))
  rw [strategyOf, layoutOf_machine fits, layoutOf_separate plain]
  simp only [Layout.narrow, strategy]
  exact ⟨_, _, rfl⟩

theorem discriminantToLlvm_eq (pool : LayoutPool) (id : EnumId) :
    discriminantToLlvm pool id = scalarToLlvm (pool.enumDef id).discriminantType := by
  apply gruelTypeToLlvm_isLeaf
  rcases discriminantType_cases (pool.enumDef id) with ty | ⟨-, ty⟩ | ⟨-, ty | ty | ty | ty⟩ <;> rw [ty] <;> rfl

theorem variantIndex_lt {definition : EnumDef} {bits : Nat} {variantIndex : UInt32}
    (declared : variantIndex.toNat < definition.variants.length)
    (discriminant : scalarToLlvm definition.discriminantType = some (.int bits)) :
    variantIndex.toNat < 2 ^ bits := by
  have small : variantIndex.toNat < 2 ^ 32 := variantIndex.toNat_lt
  unfold EnumDef.discriminantType at discriminant
  split at discriminant
  · cases discriminant
    exact small
  · simp only at discriminant
    split at discriminant
    · cases discriminant
    · split at discriminant
      · cases discriminant
        omega
      · split at discriminant
        · cases discriminant
          omega
        · split at discriminant
          · cases discriminant
            exact small
          · cases discriminant
            omega

theorem storageTy_eq {pool : LayoutPool} {id : EnumId} (fits : Fits pool (.enum id)) :
    storageTy pool id = .array .i8 ((layoutOf .exact pool (.enum id)).size % 2 ^ 32) := by
  rw [storageTy, layoutOf_machine fits, Layout.narrow_size]

theorem encodeVariant_niche {pool : LayoutPool} {id : EnumId} {unitVariant dataVariant : Nat}
    {unitDef dataDef : EnumVariantDef} {payload : Ty} {niche : NicheRange}
    {variant : EnumVariantDef}
    (shape : NicheEnum pool id unitVariant dataVariant unitDef dataDef payload niche)
    (encoded : encodeVariant pool undef id variantIndex variant fields = some (some value)) :
    ∃ memory, value = (storageTy pool id).load memory 0 := by
  unfold encodeVariant at encoded
  split at encoded
  · simp only [enumCreate, shape.strategy] at encoded
    obtain ⟨memory, -, equal⟩ := Option.map_eq_some_iff.mp encoded
    exact ⟨memory, (Option.some.inj equal).symm⟩
  · rw [enumVariant, if_neg shape.not_isUnitOnly] at encoded
    simp only [shape.strategy] at encoded
    obtain ⟨memory, -, equal⟩ := Option.map_eq_some_iff.mp encoded
    exact ⟨memory, (Option.some.inj equal).symm⟩

theorem encodeVariant_hasVal {pool : LayoutPool} {id : EnumId} {variant : EnumVariantDef}
    (fits : Fits pool (.enum id))
    (declared : (pool.enumDef id).variants[variantIndex]? = some variant)
    (encoded : encodeVariant pool undef id variantIndex variant fields = some (some value)) :
    ∃ lowered, gruelTypeToLlvm pool (.enum id) = some lowered ∧ lowered.HasVal value := by
  by_cases niche : NicheEncodedEnum pool id
  · obtain ⟨_, _, _, _, _, _, shape⟩ := nicheEnum_of_encoded fits niche
    obtain ⟨memory, rfl⟩ := encodeVariant_niche shape encoded
    have lowered := shape.lowered fits
    rw [← storageTy_eq fits] at lowered
    exact ⟨_, lowered, LlvmTy.hasVal_load _ _ _⟩
  · obtain ⟨_, _, strategy⟩ := strategyOf_separate fits niche
    by_cases unitOnly : (pool.enumDef id).isUnitOnly = true
    · have noData : ¬ variant.hasData = true := by
        simp [(isUnitOnly_iff _).mp unitOnly variant (List.mem_of_getElem? declared)]
      rw [encodeVariant, if_neg noData, enumVariant, if_pos unitOnly] at encoded
      split at encoded
      · cases encoded
      · rename_i bits found
        cases encoded
        exact ⟨_, found, Nat.mod_lt _ (Nat.two_pow_pos bits)⟩
      · cases encoded
    · obtain ⟨bits, _, -, discriminant, -, -⟩ :=
        discriminant_llvm (variants_ne_nil_of_data unitOnly)
      have lowered := gruelTypeToLlvm_dataEnum fits niche unitOnly discriminant
      unfold encodeVariant at encoded
      split at encoded
      · simp only [enumCreate, strategy] at encoded
        split at encoded
        · cases encoded
        · rename_i tag payload _ found _
          obtain ⟨memory, -, equal⟩ := Option.map_eq_some_iff.mp encoded
          rw [← Option.some.inj equal]
          exact ⟨_, found, LlvmTy.hasVal_load _ _ _⟩
        · cases encoded
      · rw [enumVariant, if_neg unitOnly] at encoded
        simp only [strategy] at encoded
        split at encoded
        · cases encoded
        · rename_i tag payload tagBits found tagFound
          cases encoded
          refine ⟨_, found, ?_⟩
          rw [found, Option.some.injEq] at lowered
          rw [discriminantToLlvm_eq, discriminant, Option.some.injEq, LlvmTy.int.injEq] at tagFound
          subst tagFound
          split at lowered
          · cases lowered
          · cases lowered
            exact ⟨Nat.mod_lt _ (Nat.two_pow_pos _), LlvmTy.hasVal_zero _, trivial⟩
        · cases encoded

theorem valid_hasVal {pool : LayoutPool} (valid : ValidVal pool ty value) (fits : Fits pool ty) :
    ∃ lowered, gruelTypeToLlvm pool ty = some lowered ∧ lowered.HasVal value := by
  induction valid with
  | @leaf ty lowered value isLeaf representable typed _ =>
    exact ⟨lowered, by rw [gruelTypeToLlvm_isLeaf pool isLeaf, representable], typed⟩
  | @struct structId fields arity present absent nonempty ih =>
    have typed := fieldTyped_of_values arity (fun index ty value atIndex found => ih index ty value atIndex found
        (fits.component (List.mem_of_getElem? atIndex))) absent
    have hasVals := hasVals_filterMap typed
    rw [gruelTypeToLlvm_struct, structToLlvm]
    cases lowered : ((pool.structDef structId).fieldTypes.map (gruelTypeToLlvm pool)).filterMap id with
    | nil =>
      rw [lowered] at hasVals
      cases kept : fields.filterMap id with
      | nil => exact absurd kept nonempty
      | cons value rest =>
        rw [kept] at hasVals
        cases hasVals
    | cons ty rest =>
      rw [lowered] at hasVals
      exact ⟨_, rfl, hasVals⟩
  | @array arrayId elems nonempty representable arity present ih =>
    obtain ⟨elem, found⟩ := Option.isSome_iff_exists.mp representable
    refine ⟨.array elem ((pool.arrayDef arrayId).2 % 2 ^ 32), ?_, arity, ?_⟩
    · rw [gruelTypeToLlvm_array, arrayToLlvm, if_neg nonempty, found]
      rfl
    · intro value member
      obtain ⟨_, otherFound, typed⟩ := ih value member (fits.component (List.mem_singleton.mpr rfl))
      rw [found, Option.some.injEq] at otherFound
      rw [otherFound]
      exact typed
  | enum declared _ _ _ encoded => exact encodeVariant_hasVal fits declared encoded

theorem scan_niches_append (fields : List Layout) (scan : StructScan) :
    ∃ later, (fields.foldl (StructScan.addField .exact) scan).niches = scan.niches ++ later := by
  induction fields generalizing scan with
  | nil => exact ⟨[], by simp⟩
  | cons field rest ih =>
    obtain ⟨later, equal⟩ := ih (scan.addField .exact field)
    rw [List.foldl_cons, equal]
    unfold StructScan.addField
    split
    · exact ⟨later, rfl⟩
    · exact ⟨_, by rw [List.append_assoc]⟩

theorem scan_first_niche {fields : List Layout} {scan : StructScan} {niche : NicheRange}
    (noneYet : scan.niches = []) (sized : ∀ field ∈ fields, field.niches ≠ [] → field.size ≠ 0)
    (found : (fields.foldl (StructScan.addField .exact) scan).niches = niche :: rest) :
    ∃ (index : Nat) (field : Layout) (offset : Nat) (inner : NicheRange) (innerRest : List NicheRange),
      fields[index]? = some field ∧ field.niches = inner :: innerRest ∧
        (∀ earlier < index, ∀ other, fields[earlier]? = some other → other.niches = []) ∧
        (structFieldOffsets .exact scan fields)[index]? = some (some offset) ∧
        niche = { inner with offset := inner.offset + offset } := by
  induction fields generalizing scan with
  | nil =>
    rw [List.foldl_nil, noneYet] at found
    cases found
  | cons field fields ih =>
    rw [List.foldl_cons] at found
    cases niches : field.niches with
    | nil =>
      have stillNone : (scan.addField .exact field).niches = [] := by
        unfold StructScan.addField
        split
        · exact noneYet
        · simp [noneYet, niches]
      obtain ⟨index, other, offset, inner, innerRest, atIndex, otherNiches, before, placed, equal⟩ :=
        ih stillNone (fun other member => sized other (List.mem_cons_of_mem field member)) found
      refine ⟨index + 1, other, offset, inner, innerRest, by simpa using atIndex, otherNiches, ?_,
        by simpa [structFieldOffsets] using placed, equal⟩
      intro earlier _ layout atEarlier
      cases earlier with
      | zero =>
        simp only [List.getElem?_cons_zero, Option.some.injEq] at atEarlier
        rw [← atEarlier, niches]
      | succ earlier =>
        exact before earlier (by omega) layout (by simpa using atEarlier)
    | cons inner innerRest =>
      have nonzero := sized field (List.mem_cons_self ..) (by simp [niches])
      obtain ⟨_, equal⟩ := scan_niches_append fields (scan.addField .exact field)
      rw [equal] at found
      simp only [StructScan.addField, nonzero, if_false, noneYet, niches, List.nil_append,
        List.map_cons, List.cons_append, List.cons.injEq, alignUp_exact, Words.exact_u32] at found
      refine ⟨0, field, RecordLayout.alignUp scan.offset field.align, inner, innerRest, rfl, niches,
        ?_, ?_, found.1.symm⟩
      · omega
      · simp [structFieldOffsets, nonzero, alignUp_exact]

theorem size_pos_of_niche {pool : LayoutPool} (niches : (layoutOf .exact pool ty).niches ≠ []) :
    (layoutOf .exact pool ty).size ≠ 0 := by
  obtain ⟨niche, _, found⟩ := List.exists_cons_of_ne_nil niches
  have member : niche ∈ (layoutOf .exact pool ty).niches := by simp [found]
  obtain ⟨inside, wellFormed⟩ := exact_niche_sound pool ty niche member
  have wide := wellFormed.width.pos
  omega

theorem firstNicheField_of_niches {pool : LayoutPool} {id : StructId} {niche : NicheRange}
    (found : (layoutOf .exact pool (.struct id)).niches = niche :: rest) :
    ∃ index ty offset inner innerRest, FirstNicheField pool id index ty ∧
      (fieldOffsets .exact pool id)[index]? = some (some offset) ∧
      (layoutOf .exact pool ty).niches = inner :: innerRest ∧
      niche = { inner with offset := inner.offset + offset } ∧
      (layoutOf .exact pool ty).size ≤ (layoutOf .exact pool (.struct id)).size := by
  rw [layoutOf_struct] at found ⊢
  have sized : ∀ field ∈ (pool.structDef id).fieldTypes.map (layoutOf .exact pool),
      field.niches ≠ [] → field.size ≠ 0 := by
    intro field member niches
    obtain ⟨part, -, rfl⟩ := List.mem_map.mp member
    exact size_pos_of_niche niches
  obtain ⟨index, field, offset, inner, innerRest, atIndex, niches, before, placed, equal⟩ :=
    scan_first_niche rfl sized found
  have inside := offset_add_size_le_structLayout (by
    intro other otherMember
    obtain ⟨part, -, rfl⟩ := List.mem_map.mp otherMember
    exact isAlign_layoutOf .exact pool part) atIndex placed
  rw [List.getElem?_map, Option.map_eq_some_iff] at atIndex
  obtain ⟨ty, atIndex, rfl⟩ := atIndex
  refine ⟨index, ty, offset, inner, innerRest, ⟨atIndex, by simp [niches], ?_⟩, placed, niches, equal, by omega⟩
  intro earlier bound other atEarlier
  exact before earlier bound _ (by simp [atEarlier])

theorem holds_field (typed : List.Forall₂ FieldTyped tys values) {memory : Memory}
    {base start index offset : Nat} {ty : LlvmTy}
    (holds : LlvmTy.HoldFields (tys.filterMap id) (values.filterMap id) memory base start)
    (tyAt : tys[index]? = some (some ty)) (valueAt : values[index]? = some (some value))
    (offsetAt : (llvmOffsetsFrom start tys)[index]? = some (some offset)) :
    ty.Holds value memory (base + offset) := by
  induction typed generalizing start index with
  | nil => simp at tyAt
  | @cons headTy headValue tys values head tail ih =>
    match headTy, headValue, head with
    | none, none, _ =>
      cases index with
      | zero => simp at tyAt
      | succ index =>
        exact ih holds tyAt valueAt offsetAt
    | some headTy, some headValue, _ =>
      obtain ⟨headHolds, tailHolds⟩ := holds
      cases index with
      | zero =>
        simp only [List.getElem?_cons_zero, Option.some.injEq] at tyAt valueAt
        simp only [llvmOffsetsFrom, List.getElem?_cons_zero, Option.some.injEq] at offsetAt
        subst tyAt valueAt offsetAt
        exact headHolds
      | succ index =>
        simp only [List.getElem?_cons_succ] at tyAt valueAt
        simp only [llvmOffsetsFrom, List.getElem?_cons_succ] at offsetAt
        exact ih tailHolds tyAt valueAt offsetAt

theorem nicheIntType_of_isAlign {width : Nat} (isAlign : IsAlign width) : nicheIntType width = some (8 * width) := by
  rcases isAlign with rfl | rfl | rfl | rfl <;> rfl

theorem nicheValue_mod {niche : NicheRange} (wellFormed : niche.WellFormed) :
    niche.start % 2 ^ 64 % 2 ^ (8 * niche.width) = niche.start := by
  have below : niche.start < 256 ^ niche.width :=
    Nat.lt_of_le_of_lt wellFormed.nonempty wellFormed.stop_lt
  have bits : (256 : Nat) ^ niche.width = 2 ^ (8 * niche.width) := by rw [Nat.pow_mul]
  have word : 2 ^ (8 * niche.width) ≤ 2 ^ 64 := by
    apply Nat.pow_le_pow_right (by decide)
    have isAlign := wellFormed.width
    unfold IsAlign at isAlign
    omega
  rw [Nat.mod_eq_of_lt (a := niche.start) (by omega), Nat.mod_eq_of_lt (by omega)]

theorem writeNicheBytes_eq {niche : NicheRange} (wellFormed : niche.WellFormed) (memory : Memory)
    (offset : Nat) : writeNicheBytes memory offset niche.width niche.start =
      some (writeLe memory offset niche.width niche.start) := by
  rw [writeNicheBytes, nicheIntType_of_isAlign wellFormed.width, Option.map_some, nicheValue_mod wellFormed]

section NicheEnumEncoding

variable {pool : LayoutPool} {id : EnumId} {unitVariant dataVariant : Nat}
  {unitDef dataDef : EnumVariantDef} {payload : Ty} {niche : NicheRange}

variable {slot memory : Memory} {base : Nat}

section

variable (shape : NicheEnum pool id unitVariant dataVariant unitDef dataDef payload niche)
include shape

theorem NicheEnum.niche_mem : niche ∈ (layoutOf .exact pool payload).niches := by
  obtain ⟨_, found⟩ := shape.niches
  simp [found]

theorem NicheEnum.wellFormed : niche.WellFormed :=
  (exact_niche_sound pool payload niche shape.niche_mem).2

theorem NicheEnum.inside : niche.offset + niche.width ≤ (layoutOf .exact pool (.enum id)).size := by
  rw [shape.size]
  exact (exact_niche_sound pool payload niche shape.niche_mem).1

theorem NicheEnum.cases {variantIndex : Nat} {variant : EnumVariantDef}
    (declared : (pool.enumDef id).variants[variantIndex]? = some variant) :
    variantIndex = unitVariant ∧ variant = unitDef ∨ variantIndex = dataVariant ∧ variant = dataDef := by
  have bound := (List.getElem?_eq_some_iff.mp declared).1
  have count := shape.variants
  have either : variantIndex = unitVariant ∨ variantIndex = dataVariant := by
    rcases shape.indices with ⟨rfl, rfl⟩ | ⟨rfl, rfl⟩ <;> omega
  rcases either with rfl | rfl
  · rw [shape.unitDeclared, Option.some.injEq] at declared
    exact .inl ⟨rfl, declared.symm⟩
  · rw [shape.dataDeclared, Option.some.injEq] at declared
    exact .inr ⟨rfl, declared.symm⟩

end

def unitSlot (pool : LayoutPool) (undef : Undef) (id : EnumId) (niche : NicheRange) : Memory :=
  writeLe (zeroedSlot undef (storageTy pool id)) niche.offset niche.width niche.start

section

variable (shape : NicheEnum pool id unitVariant dataVariant unitDef dataDef payload niche)
include shape

theorem NicheEnum.encode_unit (small : (layoutOf .exact pool (.enum id)).size < 2 ^ 32)
    (undef : Undef) (fields : List (Option LlvmVal)) :
    encodeVariant pool undef id unitVariant unitDef fields =
      some (some ((storageTy pool id).load (unitSlot pool undef id niche) 0)) := by
  have noData : ¬ unitDef.hasData = true := by simp [shape.unitFields]
  have inside := shape.inside
  have offset : niche.offset % 2 ^ 32 = niche.offset := Nat.mod_eq_of_lt (by omega)
  rw [encodeVariant, if_neg noData, enumVariant, if_neg shape.not_isUnitOnly]
  simp only [shape.strategy, offset, writeNicheBytes_eq shape.wellFormed, Option.map_some]
  rfl

theorem NicheEnum.encode_data {lowered : LlvmTy}
    (representable : gruelTypeToLlvm pool payload = some lowered) (undef : Undef)
    (value : LlvmVal) :
    encodeVariant pool undef id dataVariant dataDef [some value] = some (some ((storageTy pool id).load
        (lowered.store (undef 2) value 0 (zeroedSlot undef (storageTy pool id))) 0)) := by
  have hasData : dataDef.hasData = true := by simp [shape.dataFields]
  have different : dataVariant ≠ unitVariant := by
    rcases shape.indices with ⟨rfl, rfl⟩ | ⟨rfl, rfl⟩ <;> decide
  rw [encodeVariant, if_pos hasData]
  simp [enumCreate, shape.strategy, storeNicheVariant, different, shape.dataFields, representable]

theorem NicheEnum.payload_lowered : ∃ lowered, gruelTypeToLlvm pool payload = some lowered := by
  have nonzero : (layoutOf .exact pool payload).size ≠ 0 := by
    apply size_pos_of_niche
    obtain ⟨_, found⟩ := shape.niches
    simp [found]
  cases lowered : gruelTypeToLlvm pool payload with
  | none => exact absurd ((gruelTypeToLlvm_eq_none_iff pool payload).mp lowered) nonzero
  | some ty => exact ⟨ty, rfl⟩

end

theorem storage_bytes (fits : Fits pool (.enum id)) (small : (layoutOf .exact pool (.enum id)).size < 2 ^ 32)
    (holds : (storageTy pool id).Holds ((storageTy pool id).load slot 0) memory base) :
    ∀ index < (layoutOf .exact pool (.enum id)).size, memory (base + index) = slot index := by
  rw [storageTy_eq fits, Nat.mod_eq_of_lt small] at holds
  intro index _
  have byte := LlvmTy.bytes_of_holds_array 1 _ rfl holds index (by omega)
  rw [Nat.zero_add] at byte
  exact byte

theorem readLe_storage (fits : Fits pool (.enum id))
    (shape : NicheEnum pool id unitVariant dataVariant unitDef dataDef payload niche)
    (small : (layoutOf .exact pool (.enum id)).size < 2 ^ 32)
    (holds : (storageTy pool id).Holds ((storageTy pool id).load slot 0) memory base) :
    readLe memory (base + niche.offset) niche.width = readLe slot niche.offset niche.width := by
  apply readLe_congr
  intro _ _
  have inside := shape.inside
  rw [Nat.add_assoc]
  exact storage_bytes fits small holds _ (by omega)

theorem readLe_unitSlot (undef : Undef) (wellFormed : niche.WellFormed) :
    readLe (unitSlot pool undef id niche) niche.offset niche.width = niche.start := by
  rw [unitSlot, readLe_writeLe]
  exact Nat.mod_eq_of_lt (Nat.lt_of_le_of_lt wellFormed.nonempty wellFormed.stop_lt)

end NicheEnumEncoding

variable {ty : Ty} {variant : EnumVariantDef} {fields : List (Option LlvmVal)}
variable {memory : Memory} {base : Nat} {tys : List Ty}

theorem leaf_holds_avoids {lowered : LlvmTy} {value : LlvmVal}
    (representable : scalarToLlvm ty = some lowered) (typed : lowered.HasVal value)
    (valid : ∀ bits, value = .scalar bits → ValidBits ty bits)
    (holds : lowered.Holds value memory base) :
    ∀ niche ∈ (scalarLayout ty).niches, ¬ niche.Contains (readLe memory (base + niche.offset) niche.width) := by
  intro niche member
  cases ty
  case bool =>
    cases representable
    cases value with
    | agg elems => cases typed
    | scalar bits =>
      obtain ⟨offset, width, avoids⟩ := leaf_avoids_niche (valid bits rfl) niche member
      rw [offset, width, Nat.add_zero]
      exact holds ▸ avoids
  case char =>
    cases representable
    cases value with
    | agg elems => cases typed
    | scalar bits =>
      obtain ⟨offset, width, avoids⟩ := leaf_avoids_niche (valid bits rfl) niche member
      simp only [LlvmTy.Holds] at holds
      rw [offset, width, Nat.add_zero]
      exact holds ▸ avoids
  all_goals cases member

theorem variants_ne_nil_of_declared {definition : EnumDef} {variantIndex : Nat}
    (declared : definition.variants[variantIndex]? = some variant) : definition.variants ≠ [] := by
  intro empty
  simp [empty] at declared

theorem unitOnly_encode {pool : LayoutPool} {id : EnumId} {variantIndex : UInt32} {bits : Nat}
    {undef : Undef} (unitOnly : (pool.enumDef id).isUnitOnly = true)
    (discriminant : scalarToLlvm (pool.enumDef id).discriminantType = some (.int bits))
    (declared : (pool.enumDef id).variants[variantIndex.toNat]? = some variant) :
    gruelTypeToLlvm pool (.enum id) = some (.int bits) ∧
      encodeVariant pool undef id variantIndex.toNat variant fields = some (some (.scalar variantIndex.toNat)) := by
  have lowered : gruelTypeToLlvm pool (.enum id) = some (.int bits) := by
    rw [gruelTypeToLlvm_enum, enumToLlvm, if_pos unitOnly, discriminant]
  have noData : ¬ variant.hasData = true := by
    simp [(isUnitOnly_iff _).mp unitOnly variant (List.mem_of_getElem? declared)]
  have bound := variantIndex_lt (List.getElem?_eq_some_iff.mp declared).1 discriminant
  refine ⟨lowered, ?_⟩
  rw [encodeVariant, if_neg noData, enumVariant, if_pos unitOnly, lowered]
  simp [Nat.mod_eq_of_lt bound]

theorem NichePlaced.payload {pool : LayoutPool} {id : EnumId} {unitVariant dataVariant : Nat}
    {unitDef dataDef : EnumVariantDef} {payload : Ty} {niche : NicheRange}
    (shape : NicheEnum pool id unitVariant dataVariant unitDef dataDef payload niche)
    (encoded : NicheEncodedEnum pool id) (placed : NichePlaced pool (.enum id)) :
    NichePlaced pool payload := by
  cases placed with
  | leaf isLeaf => cases isLeaf
  | separate plain => exact absurd encoded plain
  | niche declared single placed =>
    rcases shape.cases declared with ⟨-, rfl⟩ | ⟨-, rfl⟩
    · rw [shape.unitFields] at single
      cases single
    · rw [shape.dataFields, List.cons.injEq] at single
      rw [single.1]
      exact placed

theorem payload_value {pool : LayoutPool} {payload : Ty} {lowered : LlvmTy}
    (single : variant.fields = [payload]) (arity : fields.length = variant.fields.length)
    (absent : ∀ (index : Nat) ty, variant.fields[index]? = some ty → fields[index]? = some none →
      gruelTypeToLlvm pool ty = none)
    (representable : gruelTypeToLlvm pool payload = some lowered) :
    ∃ value, fields = [some value] := by
  rw [single, List.length_singleton, List.length_eq_one_iff] at arity
  obtain ⟨field, rfl⟩ := arity
  cases field with
  | none =>
    have none := absent 0 payload (by simp [single]) rfl
    rw [none] at representable
    cases representable
  | some value => exact ⟨value, rfl⟩

theorem valid_avoids_niche {pool : LayoutPool} {value : LlvmVal} (valid : ValidVal pool ty value)
    (fits : Fits pool ty) (placed : NichePlaced pool ty)
    (small : (layoutOf .exact pool ty).size < 2 ^ 32) {niche : NicheRange} {rest : List NicheRange}
    (found : (layoutOf .exact pool ty).niches = niche :: rest) {lowered : LlvmTy}
    (representable : gruelTypeToLlvm pool ty = some lowered)
    (holds : lowered.Holds value memory base) :
    ¬ niche.Contains (readLe memory (base + niche.offset) niche.width) := by
  induction valid generalizing niche rest lowered memory base with
  | @leaf ty other value isLeaf otherRepresentable typed valid =>
    rw [gruelTypeToLlvm_isLeaf pool isLeaf, otherRepresentable, Option.some.injEq] at representable
    subst representable
    rw [layoutOf_isLeaf .exact pool isLeaf] at found
    exact leaf_holds_avoids otherRepresentable typed valid holds niche (by simp [found])
  | @struct structId fields arity present absent nonempty ih =>
    obtain ⟨index, ty, offset, inner, _, first, offsetAt, niches, rfl, _⟩ :=
      firstNicheField_of_niches found
    have inComponents : ty ∈ pool.components (.struct structId) := List.mem_of_getElem? first.1
    have fieldFits := fits.component inComponents
    have typed := fieldTyped_of_values arity
      (fun index ty value atIndex found => valid_hasVal (present index ty value atIndex found)
        (fits.component (List.mem_of_getElem? atIndex))) absent
    have bound : index < fields.length := by
      rw [arity]
      exact (List.getElem?_eq_some_iff.mp first.1).1
    cases atField : fields[index] with
    | none =>
      have none := absent index ty first.1 (by rw [List.getElem?_eq_getElem bound, atField])
      have empty := (gruelTypeToLlvm_eq_none_iff pool ty).mp none
      exact absurd empty (size_pos_of_niche (by simp [niches]))
    | some fieldValue =>
      have atIndex : fields[index]? = some (some fieldValue) := by
        rw [List.getElem?_eq_getElem bound, atField]
      obtain ⟨fieldTy, fieldLowered, -⟩ :=
        valid_hasVal (present index ty fieldValue first.1 atIndex) fieldFits
      cases placed with
      | leaf isLeaf => cases isLeaf
      | struct offsets innerPlaced =>
        have fieldHolds : fieldTy.Holds fieldValue memory (base + offset) := by
          rw [gruelTypeToLlvm_struct, structToLlvm] at representable
          split at representable
          · cases representable
          · cases representable
            apply holds_field typed holds _ atIndex (offsets index ty offset first offsetAt)
            simp [first.1, fieldLowered]
        have avoids := ih index ty fieldValue first.1 atIndex fieldFits
          (innerPlaced index ty first) (by omega) niches fieldLowered fieldHolds
        rw [Nat.add_comm inner.offset offset, ← Nat.add_assoc]
        exact avoids
  | @array arrayId elems _ _ _ _ _ =>
    rw [layoutOf_array] at found
    cases found
  | @enum enumId variantIndex variant fields undef value declared arity present absent encoded ih =>
    by_cases isNiche : NicheEncodedEnum pool enumId
    · obtain ⟨_, _, _, _, payload, first, shape⟩ :=
        nicheEnum_of_encoded fits isNiche
      have lowers := shape.lowered fits
      rw [representable, Option.some.injEq, ← storageTy_eq fits] at lowers
      subst lowers
      have left := shape.remaining niche (by simp [found])
      subst left
      rcases shape.cases declared with ⟨indexEq, rfl⟩ | ⟨indexEq, rfl⟩
      · rw [indexEq, shape.encode_unit small, Option.some.injEq, Option.some.injEq] at encoded
        subst encoded
        have read := readLe_storage fits shape small holds
        rw [readLe_unitSlot undef shape.wellFormed] at read
        simp only [NicheRange.Contains]
        omega
      · obtain ⟨payloadTy, payloadLowered⟩ := shape.payload_lowered
        obtain ⟨_, payloadNiches⟩ := shape.niches
        obtain ⟨payloadValue, rfl⟩ := payload_value shape.dataFields arity absent payloadLowered
        have payloadAt : variant.fields[0]? = some payload := by simp [shape.dataFields]
        have payloadValid := present 0 payload payloadValue payloadAt rfl
        have payloadFits := fits.component shape.component
        obtain ⟨other, otherLowered, typed⟩ := valid_hasVal payloadValid payloadFits
        rw [payloadLowered, Option.some.injEq] at otherLowered
        subst otherLowered
        rw [indexEq, shape.encode_data payloadLowered, Option.some.injEq, Option.some.injEq] at encoded
        subst encoded
        have read := readLe_storage fits shape small holds
        have payloadHolds := LlvmTy.holds_store (undef 2) payloadTy payloadValue 0
          (zeroedSlot undef (storageTy pool enumId)) typed
        have avoids := ih 0 payload payloadValue payloadAt rfl payloadFits
          (placed.payload shape isNiche) (shape.size ▸ small) payloadNiches payloadLowered
          payloadHolds
        rw [Nat.zero_add, ← read] at avoids
        simp only [NicheRange.Contains] at avoids ⊢
        omega
    · by_cases unitOnly : (pool.enumDef enumId).isUnitOnly = true
      · obtain ⟨_, width, -, discriminant, tagShape, tagLayout⟩ :=
          discriminant_llvm (variants_ne_nil_of_declared declared)
        obtain ⟨unitLowered, unitEncoded⟩ := unitOnly_encode unitOnly discriminant declared
        rw [unitLowered, Option.some.injEq] at representable
        rw [unitEncoded, Option.some.injEq, Option.some.injEq] at encoded
        subst representable encoded
        rw [layoutOf_separate isNiche] at found
        have member : niche ∈ (enumLayoutSeparate .exact (pool.enumDef enumId)
            (variantLayouts .exact pool (pool.enumDef enumId))).niches := by simp [found]
        obtain ⟨-, offset, nicheWidth, _⟩ := mem_separate_niches member
        have bound := (List.getElem?_eq_some_iff.mp declared).1
        rw [tagLayout] at nicheWidth
        simp only [LlvmTy.Holds] at holds
        simp only [LlvmTy.shape] at tagShape
        rw [tagShape] at holds
        simp only [Words.exact_u8, Layout.scalar] at nicheWidth
        rw [offset, nicheWidth, Nat.add_zero, holds]
        simp only [NicheRange.Contains]
        omega
      · rw [layoutOf_separate isNiche] at found
        have member : niche ∈ (enumLayoutSeparate .exact (pool.enumDef enumId)
            (variantLayouts .exact pool (pool.enumDef enumId))).niches := by simp [found]
        exact absurd (mem_separate_niches member).1 unitOnly

section

variable {pool : LayoutPool} {id : EnumId} (fits : Fits pool (.enum id))
include fits

theorem unitOnly_survives (plain : ¬ NicheEncodedEnum pool id)
    (unitOnly : (pool.enumDef id).isUnitOnly = true) : EnumSurvives pool id := by
  intro _ variant _ _ declared values
  obtain ⟨_, _, -, discriminant, -, -⟩ :=
    discriminant_llvm (variants_ne_nil_of_declared declared)
  obtain ⟨-, encoded⟩ := unitOnly_encode unitOnly discriminant declared
  obtain ⟨_, _, strategy⟩ := strategyOf_separate fits plain
  have noData : ¬ (pool.enumDef id).hasDataVariants = true := by
    simpa [EnumDef.isUnitOnly] using unitOnly
  refine ⟨_, encoded, ?_⟩
  intro _
  constructor
  · simp [getDiscriminant, strategy, noData]
  · intro _ _ found
    have arity := values.arity
    rw [(isUnitOnly_iff _).mp unitOnly variant (List.mem_of_getElem? declared), List.length_nil,
      List.length_eq_zero_iff] at arity
    simp [arity] at found

theorem getDiscriminant_niche {unitVariant dataVariant : Nat} {unitDef dataDef : EnumVariantDef}
    {payload : Ty} {niche : NicheRange} {slot : Memory}
    (shape : NicheEnum pool id unitVariant dataVariant unitDef dataDef payload niche)
    (small : (layoutOf .exact pool (.enum id)).size < 2 ^ 32) (undef : Undef) :
    getDiscriminant pool undef id ((storageTy pool id).load slot 0) =
      some (.scalar (if readLe slot niche.offset niche.width = niche.start then unitVariant else dataVariant)) := by
  have inside := shape.inside
  have offset : niche.offset % 2 ^ 32 = niche.offset := Nat.mod_eq_of_lt (by omega)
  obtain ⟨bits, width, _, discriminant, _, -⟩ :=
    discriminant_llvm (variants_ne_nil_of_declared shape.unitDeclared)
  have small1 : (1 : UInt32).toNat < 2 ^ bits :=
    variantIndex_lt (by simp [shape.variants]) discriminant
  have one : 1 < 2 ^ bits := small1
  have unitMod : unitVariant % 2 ^ bits = unitVariant := by
    apply Nat.mod_eq_of_lt
    rcases shape.indices with ⟨rfl, -⟩ | ⟨rfl, -⟩ <;> omega
  have dataMod : dataVariant % 2 ^ bits = dataVariant := by
    apply Nat.mod_eq_of_lt
    rcases shape.indices with ⟨-, rfl⟩ | ⟨-, rfl⟩ <;> omega
  have holds := LlvmTy.holds_store (undef 1) (storageTy pool id) ((storageTy pool id).load slot 0) 0
    (undef 0) (LlvmTy.hasVal_load _ _ _)
  have read := readLe_storage fits shape small holds
  rw [Nat.zero_add] at read
  simp only [getDiscriminant, shape.strategy, loadNicheBytes, offset,
    nicheIntType_of_isAlign shape.wellFormed.width, Option.map_some, discriminantToLlvm_eq,
    discriminant, nicheValue_mod shape.wellFormed, read, unitMod, dataMod]

theorem niche_survives (encoded : NicheEncodedEnum pool id) (small : (layoutOf .exact pool (.enum id)).size < 2 ^ 32)
    (placed : NichePlaced pool (.enum id)) : EnumSurvives pool id := by
  intro _ variant fields undef declared values
  obtain ⟨_, _, _, _, payload, niche, shape⟩ :=
    nicheEnum_of_encoded fits encoded
  rcases shape.cases declared with ⟨indexEq, rfl⟩ | ⟨indexEq, rfl⟩
  · rw [indexEq]
    refine ⟨_, shape.encode_unit small undef fields, ?_⟩
    intro later
    constructor
    · rw [getDiscriminant_niche fits shape small, readLe_unitSlot undef shape.wellFormed, if_pos rfl]
    · intro index field found
      have arity := values.arity
      rw [shape.unitFields, List.length_nil, List.length_eq_zero_iff] at arity
      simp [arity] at found
  · rw [indexEq]
    obtain ⟨lowered, representable⟩ := shape.payload_lowered
    obtain ⟨_, niches⟩ := shape.niches
    obtain ⟨value, rfl⟩ := payload_value shape.dataFields values.arity values.absent representable
    have payloadAt : variant.fields[0]? = some payload := by simp [shape.dataFields]
    have valid := values.present 0 payload value payloadAt rfl
    have payloadFits := fits.component shape.component
    obtain ⟨_, otherLowered, typed⟩ := valid_hasVal valid payloadFits
    rw [representable, Option.some.injEq] at otherLowered
    subst otherLowered
    have holds := LlvmTy.holds_store (undef 2) lowered value 0 (zeroedSlot undef (storageTy pool id)) typed
    refine ⟨_, shape.encode_data representable undef value, ?_⟩
    intro later
    constructor
    · have avoids := valid_avoids_niche valid payloadFits (placed.payload shape encoded)
        (shape.size ▸ small) niches representable holds
      rw [Nat.zero_add] at avoids
      have nonempty := shape.wellFormed.nonempty
      have different : readLe (lowered.store (undef 2) value 0
          (zeroedSlot undef (storageTy pool id))) niche.offset niche.width ≠ niche.start := by
        intro same
        apply avoids
        rw [same]
        exact ⟨Nat.le_refl _, nonempty⟩
      rw [getDiscriminant_niche fits shape small, if_neg different]
    · intro index field found
      have first : index = 0 ∧ field = some value := by
        cases index with
        | zero => simpa using found.symm
        | succ index => simp at found
      obtain ⟨rfl, rfl⟩ := first
      simp only [enumPayloadGet, shape.strategy, shape.dataFields, representable, Option.some.injEq]
      apply LlvmTy.load_of_holds lowered value _ 0 typed
      have stored := LlvmTy.holds_store (later 1) (storageTy pool id)
        ((storageTy pool id).load (lowered.store (undef 2) value 0
          (zeroedSlot undef (storageTy pool id))) 0) 0 (later 0) (LlvmTy.hasVal_load _ _ _)
      have bytes := storage_bytes fits small stored
      have within := (lowered_within payloadFits representable).size
      have sizeEq := shape.size
      apply LlvmTy.holds_congr lowered value _ _ _ _ typed _ holds
      intro position _
      have byte := bytes position (by omega)
      rw [Nat.zero_add] at byte ⊢
      exact byte.symm

end

theorem FieldValues.tail {pool : LayoutPool} {field : Option LlvmVal}
    (values : FieldValues pool (ty :: tys) (field :: fields)) :
    FieldValues pool tys fields where
  arity := by simpa using values.arity
  present index := values.present (index + 1)
  absent index := values.absent (index + 1)

theorem payloadFieldOffset_succ (pool : LayoutPool) (ty : Ty) (tys : List Ty) (index : Nat) :
    payloadFieldOffset pool (ty :: tys) (index + 1) =
      (layoutOf .machine pool ty).size + payloadFieldOffset pool tys index := by
  simp [payloadFieldOffset]

theorem machine_size {pool : LayoutPool} (fits : Fits pool ty) :
    (layoutOf .machine pool ty).size = (layoutOf .exact pool ty).size := by
  rw [layoutOf_machine fits, Layout.narrow_size]

theorem storePayload_spec {pool : LayoutPool} (undef : Undef) (payload : Nat) :
    ∀ (tys : List Ty) (fields : List (Option LlvmVal)) (byteOffset step : Nat) (memory : Memory),
      (∀ ty ∈ tys, Fits pool ty) → FieldValues pool tys fields →
      byteOffset + (tys.map fun ty => (layoutOf .exact pool ty).size).sum < 2 ^ 64 →
      ∃ result, storePayload pool undef payload tys fields byteOffset step memory = some result ∧
        (∀ address < payload + byteOffset, result address = memory address) ∧
        ∀ (index : Nat) ty value lowered, tys[index]? = some ty →
          fields[index]? = some (some value) → gruelTypeToLlvm pool ty = some lowered →
          lowered.Holds value result (payload + byteOffset + payloadFieldOffset pool tys index) := by
  intro tys
  induction tys with
  | nil =>
    intro fields byteOffset step memory _ values _
    have arity := values.arity
    rw [List.length_nil, List.length_eq_zero_iff] at arity
    subst arity
    exact ⟨memory, by simp [storePayload], fun _ _ => rfl, by simp⟩
  | cons ty tys ih =>
    intro fields byteOffset step memory fits values bounded
    cases fields with
    | nil =>
      have arity := values.arity
      simp at arity
    | cons field fields =>
      have tyFits := fits ty (List.mem_cons_self ..)
      have restFits : ∀ other ∈ tys, Fits pool other := fun other member =>
        fits other (List.mem_cons_of_mem ty member)
      have sizeEq := machine_size tyFits
      rw [List.map_cons, List.sum_cons] at bounded
      cases field with
      | none =>
        have none := values.absent 0 ty rfl rfl
        have empty := (gruelTypeToLlvm_eq_none_iff pool ty).mp none
        obtain ⟨result, stored, before, holds⟩ :=
          ih fields byteOffset step memory restFits values.tail (by omega)
        refine ⟨result, by simpa [storePayload, none] using stored, before, ?_⟩
        intro index other value lowered atIndex found representable
        cases index with
        | zero => simp at found
        | succ index =>
          rw [payloadFieldOffset_succ, sizeEq, empty, Nat.zero_add]
          exact holds index other value lowered (by simpa using atIndex) (by simpa using found) representable
      | some value =>
        have valid := values.present 0 ty value rfl rfl
        obtain ⟨lowered, representable, typed⟩ := valid_hasVal valid tyFits
        have within := (lowered_within tyFits representable).size
        have next : Words.machine.u64 (byteOffset + (layoutOf .machine pool ty).size) =
            byteOffset + (layoutOf .exact pool ty).size := by
          rw [sizeEq]
          exact Nat.mod_eq_of_lt (by omega)
        obtain ⟨result, stored, before, holds⟩ :=
          ih fields (byteOffset + (layoutOf .exact pool ty).size) (step + 1)
            (lowered.store (undef step) value (payload + byteOffset) memory) restFits
            values.tail (by omega)
        refine ⟨result, ?_, ?_, ?_⟩
        · simp only [storePayload, representable, next]
          exact stored
        · intro address below
          rw [before address (by omega)]
          exact LlvmTy.store_outside _ lowered value _ memory address typed (.inl below)
        · intro index other otherValue otherLowered atIndex found otherRepresentable
          cases index with
          | zero =>
            simp only [List.getElem?_cons_zero, Option.some.injEq] at atIndex found
            subst atIndex found
            rw [representable, Option.some.injEq] at otherRepresentable
            subst otherRepresentable
            have held := LlvmTy.holds_store (undef step) lowered value (payload + byteOffset) memory typed
            apply LlvmTy.holds_congr lowered value _ _ _ _ typed _ held
            intro _ _
            exact (before _ (by omega)).symm
          | succ index =>
            have held := holds index other otherValue otherLowered (by simpa using atIndex)
              (by simpa using found) otherRepresentable
            rw [payloadFieldOffset_succ, sizeEq]
            have regroup : payload + byteOffset + ((layoutOf .exact pool ty).size +
                payloadFieldOffset pool tys index) = payload +
                (byteOffset + (layoutOf .exact pool ty).size) +
                payloadFieldOffset pool tys index := by omega
            rw [regroup]
            exact held

theorem payloadFieldOffset_add_size_le {pool : LayoutPool} (fits : ∀ ty ∈ tys, Fits pool ty)
    {index : Nat} (atIndex : tys[index]? = some ty) :
    payloadFieldOffset pool tys index + (layoutOf .exact pool ty).size ≤
      (tys.map fun ty => (layoutOf .exact pool ty).size).sum := by
  induction tys generalizing index with
  | nil => simp at atIndex
  | cons head tys ih =>
    rw [List.map_cons, List.sum_cons]
    cases index with
    | zero =>
      simp only [List.getElem?_cons_zero, Option.some.injEq] at atIndex
      subst atIndex
      simp only [payloadFieldOffset, List.take_zero, List.map_nil, List.sum_nil]
      omega
    | succ index =>
      have later := ih (fun other member => fits other (List.mem_cons_of_mem head member))
        (show tys[index]? = some ty by simpa using atIndex)
      rw [payloadFieldOffset_succ, machine_size (fits head (List.mem_cons_self ..))]
      omega

section DataEnumEncoding

variable {pool : LayoutPool} {id : EnumId} {bits width payload align count : Nat} {elem : LlvmTy}

section

variable (shapes : DataEnumShapes pool id bits width payload elem align count)
include shapes

theorem DataEnumShapes.elem_size : (LlvmTy.scalarShape (8 * align)).size = align := by
  have shape := shapes.elemShape
  rw [shapes.elemInt, LlvmTy.shape] at shape
  rw [shape]

theorem DataEnumShapes.payloadPtr_eq :
    payloadPtr (.int bits) (.array elem count) = RecordLayout.alignUp width align := by
  rw [payloadPtr, shapes.tagShape]
  simp [LlvmTy.shape, shapes.elemShape]

theorem DataEnumShapes.load_eq (memory : Memory) :
    (LlvmTy.struct [.int bits, .array elem count]).load memory 0 = .agg [(LlvmTy.int bits).load memory 0,
        (LlvmTy.array elem count).load memory (payloadPtr (.int bits) (.array elem count))] := by
  have first : RecordLayout.alignUp 0 width = 0 :=
    RecordLayout.alignUp_of_dvd shapes.widthAlign.pos (Nat.dvd_zero width)
  simp [LlvmTy.load, LlvmTy.loadFields, shapes.tagShape, first, payloadPtr]

theorem DataEnumShapes.payload_holds {tag value : LlvmVal} {memory : Memory}
    (holds : (LlvmTy.struct [.int bits, .array elem count]).Holds (.agg [tag, value]) memory 0) :
    (LlvmTy.array elem count).Holds value memory (payloadPtr (.int bits) (.array elem count)) := by
  have first : RecordLayout.alignUp 0 width = 0 :=
    RecordLayout.alignUp_of_dvd shapes.widthAlign.pos (Nat.dvd_zero width)
  simp only [LlvmTy.Holds, LlvmTy.HoldFields, shapes.tagShape, first, Nat.zero_add, and_true] at holds
  simpa [LlvmTy.Holds, payloadPtr, shapes.tagShape] using holds.2

end

theorem data_survives (fits : Fits pool (.enum id)) (plain : ¬ NicheEncodedEnum pool id)
    (data : ¬ (pool.enumDef id).isUnitOnly = true)
    (shapes : DataEnumShapes pool id bits width payload elem align count) (nonempty : payload ≠ 0)
    (fitsWord : count < 2 ^ 32) (covers : payload ≤ align * count) : EnumSurvives pool id := by
  intro variantIndex variant fields undef declared values
  obtain ⟨_, _, strategy⟩ := strategyOf_separate fits plain
  have lowered := shapes.lowered
  rw [if_neg nonempty, Nat.mod_eq_of_lt fitsWord] at lowered
  have discriminant : discriminantToLlvm pool id = some (.int bits) := by
    rw [discriminantToLlvm_eq, shapes.discriminant]
  have indexMod : variantIndex.toNat % 2 ^ bits = variantIndex.toNat := Nat.mod_eq_of_lt
      (variantIndex_lt (List.getElem?_eq_some_iff.mp declared).1 shapes.discriminant)
  have indexTyped : (LlvmTy.int bits).HasVal (.scalar variantIndex.toNat) :=
    variantIndex_lt (List.getElem?_eq_some_iff.mp declared).1 shapes.discriminant
  have hasData : (pool.enumDef id).hasDataVariants = true := by
    simpa [EnumDef.isUnitOnly] using data
  by_cases variantData : variant.hasData = true
  · have fieldFits : ∀ ty ∈ variant.fields, Fits pool ty := by
      intro ty member
      exact fits.component (List.mem_flatMap.mpr ⟨variant, List.mem_of_getElem? declared, member⟩)
    have sumLe : (variant.fields.map fun ty => (layoutOf .exact pool ty).size).sum ≤ payload := by
      rw [shapes.payloadEq]
      have member : variant.fields.map (layoutOf .exact pool) ∈ variantLayouts .exact pool (pool.enumDef id) :=
        List.mem_map_of_mem (List.mem_of_getElem? declared)
      have bound : payloadSize .exact (variant.fields.map (layoutOf .exact pool)) ≤
          maxPayload .exact (variantLayouts .exact pool (pool.enumDef id)) :=
        payloadSize_le_maxPayload member
      rw [payloadSize, Words.exact_u64, List.map_map] at bound
      exact bound
    have payloadFits : payload < 2 ^ 64 := by
      have here := fits.here
      have bound := parts_le_separate (variantLayouts .exact pool (pool.enumDef id)) data
      rw [layoutOf_separate plain] at here
      rw [shapes.payloadEq]
      omega
    obtain ⟨result, stored, before, held⟩ := storePayload_spec undef
      (payloadPtr (.int bits) (.array elem count)) variant.fields fields 0 2
      ((LlvmTy.int bits).store (undef 1) (.scalar variantIndex.toNat) 0 (undef 0)) fieldFits values
      (by omega)
    have encoded : encodeVariant pool undef id variantIndex.toNat variant fields =
        some (some ((LlvmTy.struct [.int bits, .array elem count]).load result 0)) := by
      rw [encodeVariant, if_pos variantData]
      simp [enumCreate, strategy, lowered, discriminant, indexMod, stored]
    have tagLoaded : (LlvmTy.int bits).load result 0 = .scalar variantIndex.toNat := by
      have tagHeld := LlvmTy.holds_store (undef 1) (.int bits) (.scalar variantIndex.toNat) 0 (undef 0) indexTyped
      apply LlvmTy.load_of_holds _ _ _ _ indexTyped
      apply LlvmTy.holds_congr _ _ _ _ _ _ indexTyped _ tagHeld
      intro position bound
      have behind := le_alignUp width align shapes.elemAlign.pos
      rw [shapes.tagShape] at bound
      rw [shapes.payloadPtr_eq] at before
      simp only at bound
      exact (before _ (by omega)).symm
    rw [shapes.load_eq, tagLoaded] at encoded
    refine ⟨_, encoded, ?_⟩
    intro later
    constructor
    · simp [getDiscriminant, strategy, hasData, lowered]
    · intro index field found
      have bound : index < variant.fields.length := by
        rw [← values.arity]
        exact (List.getElem?_eq_some_iff.mp found).1
      have atIndex := List.getElem?_eq_getElem bound
      generalize variant.fields[index] = ty at atIndex
      have inFields := List.mem_of_getElem? atIndex
      cases field with
      | none =>
        simp only [enumPayloadGet, strategy, atIndex, values.absent index ty atIndex found]
      | some value =>
        have valid := values.present index ty value atIndex found
        obtain ⟨fieldTy, representable, typed⟩ := valid_hasVal valid (fieldFits ty inFields)
        have within := (lowered_within (fieldFits ty inFields) representable).size
        have offsetLe := payloadFieldOffset_add_size_le fieldFits atIndex
        have fieldHeld := held index ty value fieldTy atIndex found representable
        rw [Nat.add_zero] at fieldHeld
        have offsetMod : Words.machine.u64 (payloadFieldOffset pool variant.fields index) =
            payloadFieldOffset pool variant.fields index := Nat.mod_eq_of_lt (by omega)
        simp only [enumPayloadGet, strategy, atIndex, representable, lowered, offsetMod, Option.some.injEq]
        have restored := LlvmTy.holds_store (later 1) (LlvmTy.struct [.int bits, .array elem count])
          (.agg [.scalar variantIndex.toNat, (LlvmTy.array elem count).load result
            (payloadPtr (.int bits) (.array elem count))]) 0 (later 0)
          ⟨indexTyped, LlvmTy.hasVal_load _ _ _, trivial⟩
        have payloadRestored := shapes.payload_holds restored
        rw [shapes.elemInt] at payloadRestored
        have bytes := LlvmTy.bytes_of_holds_array align count shapes.elem_size payloadRestored
        apply LlvmTy.load_of_holds fieldTy value _ _ typed
        apply LlvmTy.holds_congr fieldTy value _ _ _ _ typed _ fieldHeld
        intro position _
        rw [Nat.add_assoc]
        rw [← shapes.elemInt] at bytes
        exact (bytes _ (by omega)).symm
  · have encoded : encodeVariant pool undef id variantIndex.toNat variant fields =
        some (some (.agg [.scalar variantIndex.toNat, (LlvmTy.array elem count).zero])) := by
      rw [encodeVariant, if_neg variantData, enumVariant, if_neg data]
      simp only [strategy, lowered, discriminant, indexMod]
    refine ⟨_, encoded, ?_⟩
    intro later
    constructor
    · simp [getDiscriminant, strategy, hasData, lowered]
    · intro index field found
      have noFields : variant.fields = [] := by
        simpa using variantData
      have arity := values.arity
      rw [noFields, List.length_nil, List.length_eq_zero_iff] at arity
      simp [arity] at found

end DataEnumEncoding

/-- Every variant of every encodable enum survives its encoding. -/
theorem enum_survives {pool : LayoutPool} {id : EnumId} (fits : Fits pool (.enum id))
    (encodable : EnumEncodable pool id) : EnumSurvives pool id := by
  unfold EnumEncodable at encodable
  split at encodable
  · rename_i encoded
    exact niche_survives fits encoded encodable.1 encodable.2
  · rename_i plain
    by_cases unitOnly : (pool.enumDef id).isUnitOnly = true
    · exact unitOnly_survives fits plain unitOnly
    · obtain ⟨nonempty, fitsWord⟩ := encodable.resolve_left unitOnly
      by_cases isC : (pool.enumDef id).isCLayout = true
      · obtain ⟨payload, _, _, shapes, -, -⟩ := c_dataEnumShapes fits plain unitOnly isC
        rw [← shapes.payloadEq] at nonempty
        rw [← shapes.countEq] at fitsWord
        apply data_survives fits plain unitOnly shapes nonempty fitsWord
        unfold elemCount
        rcases shapes.elemAlign with rfl | rfl | rfl | rfl <;> omega
      · obtain ⟨_, _, payload, shapes, -⟩ := plain_dataEnumShapes fits plain unitOnly isC
        rw [← shapes.payloadEq] at nonempty
        rw [← shapes.countEq] at fitsWord
        exact data_survives fits plain unitOnly shapes nonempty fitsWord (by omega)

theorem nestedOption_fits_enum : Fits nestedOptionPool (.enum 1) :=
  nestedOption_fits.component (List.mem_cons_of_mem _ (List.mem_singleton.mpr rfl))

theorem nestedOption_encodable : EnumEncodable nestedOptionPool 1 := by
  have variants : variantLayouts .exact nestedOptionPool (nestedOptionPool.enumDef 1) =
      [[], [layoutOf .exact nestedOptionPool (.enum 0)]] := rfl
  have encoded : NicheEncodedEnum nestedOptionPool 1 := by
    rw [NicheEncodedEnum, variants, layoutOf_nestedOption_inner]
    rfl
  have bool : NichePlaced nestedOptionPool .bool := .leaf rfl
  have inner : NichePlaced nestedOptionPool (.enum 0) :=
    .niche (show (nestedOptionPool.enumDef 0).variants[1]? = some ⟨"Some", [.bool], []⟩ from rfl) rfl bool
  have outer : NichePlaced nestedOptionPool (.enum 1) :=
    .niche (show (nestedOptionPool.enumDef 1).variants[1]? = some ⟨"Some", [.enum 0], []⟩ from rfl) rfl inner
  rw [EnumEncodable, if_pos encoded, layoutOf_nestedOption_outer]
  exact ⟨by decide, outer⟩

theorem enum_survives_nestedOption : Fits nestedOptionPool (.enum 1) ∧ EnumEncodable nestedOptionPool 1 ∧
      EnumSurvives nestedOptionPool 1 :=
  ⟨nestedOption_fits_enum, nestedOption_encodable, enum_survives nestedOption_fits_enum nestedOption_encodable⟩

def zeroPayloadPool : LayoutPool where
  structDef _ := { name := "S", fields := [] }
  enumDef _ := { name := "E", variants := [⟨"A", [.unit], []⟩, ⟨"B", [.unit], []⟩] }
  arrayDef _ := (.unit, 1)
  rank
    | .enum _ => 1
    | .array _ => 1
    | _ => 0
  rank_lt := by
    intro ty part member
    rcases ty
    case enum id =>
      have payload : part = .unit := by simpa [TypeInternPool.components] using member
      subst payload
      exact Nat.one_pos
    case array id =>
      have element : part = .unit := by simpa [TypeInternPool.components] using member
      subst element
      exact Nat.one_pos
    all_goals cases member

/-- The tagged union of such an enum is a bare integer, and casting it to a struct type panics. -/
theorem not_enumSurvives_zeroPayload : ¬ EnumSurvives zeroPayloadPool 0 := by
  intro survives
  have unit : layoutOf .machine zeroPayloadPool .unit = .zeroSized := layoutOf_isLeaf .machine _ rfl
  have variants : variantLayouts .machine zeroPayloadPool (zeroPayloadPool.enumDef 0) =
      [[layoutOf .machine zeroPayloadPool .unit], [layoutOf .machine zeroPayloadPool .unit]] := rfl
  have layout : layoutOf .machine zeroPayloadPool (.enum 0) =
      { size := 1, align := 1, discriminant := some (.separate 0 1 1) } := by
    rw [layoutOf_enum, variants, unit]
    decide
  have lowered : gruelTypeToLlvm zeroPayloadPool (.enum 0) = some (.int 8) := by
    rw [gruelTypeToLlvm_enum, layout, variants, unit]
    rfl
  have values : FieldValues zeroPayloadPool [.unit] [none] := by
    refine ⟨rfl, ?_, ?_⟩
    · intro index ty value _ found
      rcases index with _ | index <;> cases found
    · intro index ty atIndex _
      rcases index with _ | index
      · cases atIndex
        exact gruelTypeToLlvm_isLeaf _ rfl
      · cases atIndex
  obtain ⟨value, encoded, -⟩ := survives 0 ⟨"A", [.unit], []⟩ [none] (fun _ _ => 0) rfl values
  simp [encodeVariant, enumCreate, strategyOf, layout, lowered] at encoded

end Gruel
