import Gruel.Encoding
import Gruel.LlvmTypesCore
import Mathlib.Data.List.Forall2

/-!
When the layout module and the LLVM lowering agree.
-/

namespace Gruel

open RecordLayout (Shape le_alignUp)

variable {pool : LayoutPool} {enumId : EnumId} {ty : Ty} {fields : List Layout}
  {definition : EnumDef} {bits width align : Nat}

variable {words : Words} {scan : StructScan} {layouts : List Layout}
  {lowered : List (Option LlvmTy)} {payload count : Nat} {elem : LlvmTy}

theorem scalarToLlvm_eq_none_iff (ty : Ty) (isLeaf : ty.isLeaf = true) :
    scalarToLlvm ty = none ↔ (scalarLayout ty).size = 0 := by
  cases ty <;> simp [scalarToLlvm, scalarLayout, Layout.scalar, Layout.zeroSized, Layout.bool,
    Layout.char, Ty.isLeaf] at isLeaf ⊢

theorem structToLlvm_eq_none_iff (fields : List (Option LlvmTy)) :
    structToLlvm fields = none ↔ ∀ field ∈ fields, field = none := by
  unfold structToLlvm
  constructor
  · intro empty field member
    split at empty
    · rename_i noneLeft
      cases field with
      | none => rfl
      | some ty =>
        have present : ty ∈ fields.filterMap id := List.mem_filterMap.mpr ⟨some ty, member, rfl⟩
        rw [noneLeft] at present
        cases present
    · cases empty
  · intro allNone
    have noneLeft : fields.filterMap id = [] := by
      apply List.filterMap_eq_nil_iff.mpr
      intro field member
      rw [allNone field member]
      rfl
    rw [noneLeft]

theorem structFieldOffsets_isSome {index : Nat} {field : Layout}
    (found : fields[index]? = some field) (nonzero : field.size ≠ 0) :
    ∃ offset, (structFieldOffsets words scan fields)[index]? = some (some offset) := by
  induction fields generalizing scan index with
  | nil => simp at found
  | cons head rest ih =>
    cases index with
    | zero =>
      simp only [List.getElem?_cons_zero, Option.some.injEq] at found
      subst found
      exact ⟨_, by simp [structFieldOffsets, nonzero]; rfl⟩
    | succ index =>
      exact ih found

theorem scan_of_empty (allEmpty : ∀ field ∈ fields, field.size = 0) :
    fields.foldl (StructScan.addField words) scan = scan := by
  induction fields with
  | nil => rfl
  | cons head rest ih =>
    have headEmpty := allEmpty head (List.mem_cons_self ..)
    rw [List.foldl_cons]
    simp only [StructScan.addField, headEmpty, if_true]
    exact ih fun field member => allEmpty field (List.mem_cons_of_mem head member)

theorem structLayout_size_eq_zero_iff (aligned : ∀ field ∈ fields, IsAlign field.align) :
    (structLayout .exact fields).size = 0 ↔ ∀ field ∈ fields, field.size = 0 := by
  constructor
  · intro _ field member
    by_contra nonzero
    obtain ⟨index, found⟩ := List.mem_iff_getElem?.mp member
    have present : ∃ offset, (structFieldOffsets .exact {} fields)[index]? = some (some offset) :=
      structFieldOffsets_isSome found nonzero
    obtain ⟨offset, placed⟩ := present
    have inside := offset_add_size_le_structLayout aligned found placed
    omega
  · intro allEmpty
    simp [structLayout, scan_of_empty allEmpty, StructScan.layout]

theorem isUnitOnly_iff (definition : EnumDef) :
    definition.isUnitOnly = true ↔ ∀ variant ∈ definition.variants, variant.fields = [] := by
  simp [EnumDef.isUnitOnly, EnumDef.hasDataVariants, EnumVariantDef.hasData]

theorem variants_ne_nil_of_data (data : ¬ definition.isUnitOnly = true) : definition.variants ≠ [] := by
  intro empty
  exact data ((isUnitOnly_iff definition).mpr (by simp [empty]))

theorem parts_le_separate {definition : EnumDef} (variants : List (List Layout))
    (data : ¬ definition.isUnitOnly = true) : (discriminantLayout definition).size + maxPayload .exact variants ≤
      (enumLayoutSeparate .exact definition variants).size := by
  have discrimAlign := isAlign_discriminantLayout definition
  rw [enumLayoutSeparate, if_neg data]
  split
  · simp only [cEnumLayout, alignUp_exact, Words.exact_u64]
    generalize enumAlignEq : max (discriminantLayout definition).align (maxVariantAlign variants) = enumAlign
    have positive : 0 < enumAlign := by
      have := discrimAlign.pos
      omega
    have tagPlaced := le_alignUp (discriminantLayout definition).size enumAlign positive
    have payloadPlaced := le_alignUp (maxPayload .exact variants) enumAlign positive
    have totalPlaced := le_alignUp (RecordLayout.alignUp (discriminantLayout definition).size enumAlign +
        RecordLayout.alignUp (maxPayload .exact variants) enumAlign) enumAlign positive
    omega
  · simp only [dataEnumLayout, alignUp_exact, Words.exact_u64]
    split
    · omega
    · exact le_alignUp _ _ discrimAlign.pos

theorem nicheEncoded_size_pos {id : EnumId} {layout : Layout}
    (encoded : tryNicheEncodedEnumLayout (variantLayouts .exact pool (pool.enumDef id)) =
      some layout) : 0 < layout.size ∧ ¬ (pool.enumDef id).isUnitOnly = true := by
  obtain ⟨payload, -, _, _, variant, niche, _, declared, fields, found, rfl⟩ :=
    nicheEncoded_payload encoded
  have member : niche ∈ (layoutOf .exact pool payload).niches := by simp [found]
  obtain ⟨inside, wellFormed⟩ := exact_niche_sound pool payload niche member
  have wide := wellFormed.width.pos
  constructor
  · simp only
    omega
  · intro unitOnly
    have empty := (isUnitOnly_iff _).mp unitOnly variant (List.mem_of_getElem? declared)
    rw [fields] at empty
    cases empty

theorem enum_size_eq_zero_iff (pool : LayoutPool) (id : EnumId) : (layoutOf .exact pool (.enum id)).size = 0 ↔
      (pool.enumDef id).isUnitOnly = true ∧ (discriminantLayout (pool.enumDef id)).size = 0 := by
  rw [layoutOf_enum]
  cases encoded : tryNicheEncodedEnumLayout (variantLayouts .exact pool (pool.enumDef id)) with
  | some layout =>
    rw [enumLayout_of_encoded encoded]
    obtain ⟨positive, data⟩ := nicheEncoded_size_pos encoded
    constructor
    · omega
    · intro unitOnly
      exact absurd unitOnly.1 data
  | none =>
    rw [enumLayout_of_not_encoded encoded]
    by_cases unitOnly : (pool.enumDef id).isUnitOnly = true
    · rw [discriminantLayout_size_le_separate _ _ unitOnly]
      simp [unitOnly]
    · have positive := (isAlign_discriminantLayout_size (variants_ne_nil_of_data unitOnly)).pos
      have atLeast := parts_le_separate (variantLayouts .exact pool (pool.enumDef id)) unitOnly
      constructor
      · omega
      · intro both
        exact absurd both.1 unitOnly

theorem enumToLlvm_eq_none_iff (definition : EnumDef) (layout : Layout) (variants : List (List Layout)) :
    enumToLlvm definition layout variants = none ↔
      definition.isUnitOnly = true ∧ (discriminantLayout definition).size = 0 := by
  have leaf : definition.discriminantType.isLeaf = true := by
    rcases discriminantType_cases definition with ty | ⟨-, ty⟩ | ⟨-, ty | ty | ty | ty⟩ <;> rw [ty] <;> rfl
  have discriminant := scalarToLlvm_eq_none_iff definition.discriminantType leaf
  unfold enumToLlvm
  by_cases unitOnly : definition.isUnitOnly = true
  · simp [unitOnly, discriminant, discriminantLayout]
  · have positive := (isAlign_discriminantLayout_size (variants_ne_nil_of_data unitOnly)).pos
    rw [if_neg unitOnly]
    constructor
    · intro none
      split at none
      · cases none
      · rw [Option.map_eq_none_iff, discriminant] at none
        exact absurd none (Nat.ne_of_gt positive)
    · intro both
      exact absurd both.1 unitOnly

theorem gruelTypeToLlvm_eq_none_iff (pool : LayoutPool) (ty : Ty) :
    gruelTypeToLlvm pool ty = none ↔ (layoutOf .exact pool ty).size = 0 := by
  induction ty using pool.induction with
  | step ty ih =>
    cases ty
    case struct id =>
      rw [gruelTypeToLlvm_struct, layoutOf_struct, structToLlvm_eq_none_iff, structLayout_size_eq_zero_iff]
      · constructor
        · intro allNone field member
          obtain ⟨part, inFields, rfl⟩ := List.mem_map.mp member
          exact (ih part inFields).mp (allNone _ (List.mem_map_of_mem inFields))
        · intro allEmpty field member
          obtain ⟨part, inFields, rfl⟩ := List.mem_map.mp member
          exact (ih part inFields).mpr (allEmpty _ (List.mem_map_of_mem inFields))
      · intro field member
        obtain ⟨part, -, rfl⟩ := List.mem_map.mp member
        exact isAlign_layoutOf .exact pool part
    case array id =>
      have element := ih _ (List.mem_singleton.mpr rfl)
      rw [gruelTypeToLlvm_array, layoutOf_array]
      simp only [arrayToLlvm, arrayLayout, Words.exact_u64, Nat.mul_eq_zero, ← element]
      by_cases empty : (pool.arrayDef id).2 = 0
      · simp [empty]
      · simp [empty]
    case enum id =>
      rw [gruelTypeToLlvm_enum, enumToLlvm_eq_none_iff, enum_size_eq_zero_iff]
    all_goals
      rw [gruelTypeToLlvm_isLeaf pool rfl, layoutOf_isLeaf .exact pool rfl]
      exact scalarToLlvm_eq_none_iff _ rfl

def Matched (layout : Layout) : Option LlvmTy → Prop
  | none => layout.size = 0
  | some ty => layout.size ≠ 0 ∧ ty.shape = ⟨layout.size, layout.align⟩

theorem LayoutPool.Everywhere.mono {first second : Ty → Prop} (all : pool.Everywhere first ty)
    (implies : ∀ part, pool.Everywhere first part → second part) : pool.Everywhere second ty := by
  intro part path
  apply implies
  intro inner rest
  exact all inner (path.trans rest)

theorem matched_of_agrees (fits : Fits pool ty) (agrees : LayoutAgrees pool ty) :
    Matched (layoutOf .exact pool ty) (gruelTypeToLlvm pool ty) := by
  have size := agrees.size
  have align := agrees.align
  rw [layoutOf_machine fits] at size align
  simp only [Layout.narrow_size, Layout.narrow_align, llvmShape] at size align
  cases lowered : gruelTypeToLlvm pool ty with
  | none => exact (gruelTypeToLlvm_eq_none_iff pool ty).mp lowered
  | some llvm =>
    rw [lowered] at size align
    constructor
    · intro empty
      rw [(gruelTypeToLlvm_eq_none_iff pool ty).mpr empty] at lowered
      cases lowered
    · rw [size, align]

theorem align_eq_one_of_agrees (fits : Fits pool ty) (agrees : LayoutAgrees pool ty)
    (empty : (layoutOf .exact pool ty).size = 0) : (layoutOf .exact pool ty).align = 1 := by
  have align := agrees.align
  rw [layoutOf_machine fits, Layout.narrow_align, llvmShape, (gruelTypeToLlvm_eq_none_iff pool ty).mpr empty] at align
  exact align

theorem shape_of_agrees (fits : Fits pool ty) (agrees : LayoutAgrees pool ty) :
    llvmShape pool ty = ⟨(layoutOf .exact pool ty).size, (layoutOf .exact pool ty).align⟩ := by
  have size := agrees.size
  have align := agrees.align
  rw [layoutOf_machine fits] at size align
  simp only [Layout.narrow_size, Layout.narrow_align] at size align
  rw [size, align]

theorem agrees_of_shape (fits : Fits pool ty) (notStruct : ∀ id, ty ≠ .struct id)
    (shape : llvmShape pool ty = ⟨(layoutOf .exact pool ty).size, (layoutOf .exact pool ty).align⟩)
    (payload : ∀ tagOffset tagWidth payloadOffset discrim payload,
      (layoutOf .machine pool ty).discriminant = some (.separate tagOffset tagWidth payloadOffset) →
      gruelTypeToLlvm pool ty = some (.struct [discrim, payload]) →
      RecordLayout.offsetsFrom 0 [discrim.shape, payload.shape] = [tagOffset, payloadOffset]) :
    LayoutAgrees pool ty := by
  refine ⟨?_, ?_, ?_, ?_, payload⟩
  · rw [layoutOf_machine fits, shape]
    rfl
  · rw [layoutOf_machine fits, shape]
    rfl
  · intro id isStruct
    exact absurd isStruct (notStruct id)
  · intro id isStruct
    exact absurd isStruct (notStruct id)

structure ScanMatches (scan : StructScan) (layouts : List Layout)
    (lowered : List (Option LlvmTy)) : Prop where
  offsets : structFieldOffsets .exact scan layouts = llvmOffsetsFrom scan.offset lowered
  offset : (layouts.foldl (StructScan.addField .exact) scan).offset =
    RecordLayout.endFrom scan.offset (LlvmTy.shapes (lowered.filterMap id))
  maxAlign : (layouts.foldl (StructScan.addField .exact) scan).maxAlign =
    max scan.maxAlign (RecordLayout.maxAlign (LlvmTy.shapes (lowered.filterMap id)))
  niches : (layouts.foldl (StructScan.addField .exact) scan).niches = scan.niches ++
    nichesAt (llvmOffsetsFrom scan.offset lowered) (layouts.map Layout.niches)

theorem scanMatches (matched : List.Forall₂ Matched layouts lowered) (scan : StructScan)
    (start : 0 < scan.maxAlign) : ScanMatches scan layouts lowered := by
  induction matched generalizing scan with
  | nil =>
    refine ⟨rfl, rfl, ?_, ?_⟩
    · simp [LlvmTy.shapes, RecordLayout.maxAlign]
      omega
    · simp [nichesAt]
  | @cons layout lowered layouts rest head tail ih =>
    cases lowered with
    | none =>
      have empty : layout.size = 0 := head
      have unchanged : scan.addField .exact layout = scan := by
        simp [StructScan.addField, empty]
      have later := ih scan start
      refine ⟨?_, ?_, ?_, ?_⟩
      · simp [structFieldOffsets, empty, unchanged, llvmOffsetsFrom, later.offsets]
      · simpa [unchanged] using later.offset
      · simpa [unchanged] using later.maxAlign
      · simpa [unchanged, llvmOffsetsFrom, nichesAt] using later.niches
    | some ty =>
      obtain ⟨nonzero, shape⟩ := head
      have next : (scan.addField .exact layout).offset =
          RecordLayout.alignUp scan.offset ty.shape.align + ty.shape.size := by
        rw [StructScan.addField_offset .exact scan nonzero, shape]
        rfl
      have nextAlign : (scan.addField .exact layout).maxAlign = max scan.maxAlign ty.shape.align := by
        simp [StructScan.addField, nonzero, shape]
      have nextNiches : (scan.addField .exact layout).niches = scan.niches ++ layout.niches.map
            (NicheRange.shift (RecordLayout.alignUp scan.offset ty.shape.align)) := by
        simp only [StructScan.addField, nonzero, if_false, shape, alignUp_exact, Words.exact_u32]
        rfl
      have later := ih (scan.addField .exact layout) (by omega)
      have offsets := later.offsets
      have offset := later.offset
      have maxAlign := later.maxAlign
      have niches := later.niches
      rw [next] at offsets offset niches
      rw [nextAlign] at maxAlign
      rw [nextNiches] at niches
      have kept : (some ty :: rest).filterMap id = ty :: rest.filterMap id := rfl
      refine ⟨?_, ?_, ?_, ?_⟩
      · simp [structFieldOffsets, nonzero, llvmOffsetsFrom, offsets, shape, alignUp_exact]
      · exact offset
      · rw [List.foldl_cons, kept, LlvmTy.shapes, RecordLayout.maxAlign, ← Nat.max_assoc]
        exact maxAlign
      · simp [llvmOffsetsFrom, nichesAt, niches]

theorem structToLlvm_shape (fields : List (Option LlvmTy)) : (match structToLlvm fields with
      | none => (⟨0, 1⟩ : Shape)
      | some lowered => lowered.shape) =
      RecordLayout.record (LlvmTy.shapes (fields.filterMap id)) := by
  unfold structToLlvm
  split
  · rename_i empty
    split at empty
    · rename_i noneLeft
      rw [noneLeft]
      rfl
    · cases empty
  · rename_i lowered found
    split at found
    · cases found
    · cases found
      rfl

theorem structLayout_matches (matched : List.Forall₂ Matched layouts lowered) :
    (⟨(structLayout .exact layouts).size, (structLayout .exact layouts).align⟩ : Shape) =
        RecordLayout.record (LlvmTy.shapes (lowered.filterMap id)) ∧
      structFieldOffsets .exact {} layouts = llvmOffsetsFrom 0 lowered ∧
      (structLayout .exact layouts).niches = nichesAt (llvmOffsetsFrom 0 lowered) (layouts.map Layout.niches) := by
  have scanned := scanMatches matched {} (by decide)
  have offset := scanned.offset
  have maxAlign := scanned.maxAlign
  have niches := scanned.niches
  have atLeast := RecordLayout.maxAlign_pos (LlvmTy.shapes (lowered.filterMap id))
  rw [show max ({} : StructScan).maxAlign (RecordLayout.maxAlign (LlvmTy.shapes (lowered.filterMap id))) =
      RecordLayout.maxAlign (LlvmTy.shapes (lowered.filterMap id)) from Nat.max_eq_right atLeast]
    at maxAlign
  refine ⟨?_, scanned.offsets, niches⟩
  simp only [structLayout, StructScan.layout, RecordLayout.record, RecordLayout.size, alignUp_exact,
    maxAlign, offset, Shape.mk.injEq, and_true]
  split
  · rfl
  · have one : RecordLayout.maxAlign (LlvmTy.shapes (lowered.filterMap id)) = 1 := by omega
    rw [one, RecordLayout.alignUp_one]

theorem llvmShape_struct (pool : LayoutPool) (structId : StructId) :
    llvmShape pool (.struct structId) = RecordLayout.record
      (LlvmTy.shapes (((pool.structDef structId).fieldTypes.map (gruelTypeToLlvm pool)).filterMap id)) := by
  unfold llvmShape
  rw [gruelTypeToLlvm_struct]
  exact structToLlvm_shape _

theorem map_narrow_eq_self_iff (niches : List NicheRange) :
    niches.map NicheRange.narrow = niches ↔ ∀ niche ∈ niches, niche.offset < 2 ^ 32 := by
  constructor
  · intro same niche member
    have fixed : niche.narrow = niche := by
      have pointwise : niches.map NicheRange.narrow = niches.map id := by simpa using same
      exact List.map_inj_left.mp pointwise niche member
    have offset := congrArg NicheRange.offset fixed
    simp only [NicheRange.narrow] at offset
    omega
  · intro small
    conv => rhs; rw [← List.map_id niches]
    apply List.map_congr_left
    intro niche member
    rw [NicheRange.narrow, Nat.mod_eq_of_lt (small niche member)]
    rfl

theorem struct_agrees_iff {structId : StructId} (fits : Fits pool (.struct structId))
    (agree : ∀ part ∈ pool.components (.struct structId), LayoutAgrees pool part)
    (nichesFit : ∀ part ∈ pool.components (.struct structId), NicheOffsetsFit pool part) :
    LayoutAgrees pool (.struct structId) ↔ FaithfulPart pool (.struct structId) := by
  have matched : List.Forall₂ Matched ((pool.structDef structId).fieldTypes.map (layoutOf .exact pool))
      ((pool.structDef structId).fieldTypes.map (gruelTypeToLlvm pool)) := by
    rw [List.forall₂_map_left_iff, List.forall₂_map_right_iff, List.forall₂_same]
    intro part member
    exact matched_of_agrees (fits.component member) (agree part member)
  obtain ⟨shape, offsets, niches⟩ := structLayout_matches matched
  rw [← layoutOf_struct, ← llvmShape_struct] at shape
  rw [← layoutOf_struct, List.map_map] at niches
  have partNiches : (pool.structDef structId).fieldTypes.map (Layout.niches ∘ layoutOf .exact pool) =
      (pool.structDef structId).fieldTypes.map fun field => (layoutOf .machine pool field).niches := by
    apply List.map_congr_left
    intro part member
    exact (niches_machine (fits.component member) (nichesFit part member)).symm
  rw [partNiches] at niches
  have machine := layoutOf_machine fits
  have narrowed : (layoutOf .machine pool (.struct structId)).niches =
      (layoutOf .exact pool (.struct structId)).niches.map NicheRange.narrow := by
    rw [machine]
    rfl
  constructor
  · intro agrees
    apply (map_narrow_eq_self_iff _).mp
    rw [← narrowed, agrees.niches structId rfl, niches]
    rfl
  · intro faithful
    refine ⟨?_, ?_, ?_, ?_, ?_⟩
    · rw [machine, Layout.narrow_size, ← shape]
    · rw [machine, Layout.narrow_align, ← shape]
    · rintro other ⟨⟩
      rw [fieldOffsets_machine fits]
      exact offsets
    · rintro other ⟨⟩
      rw [narrowed, (map_narrow_eq_self_iff _).mpr faithful, niches]
      rfl
    · intro _ _ _ _ _ strategy
      rw [layoutOf_struct] at strategy
      cases strategy

theorem array_agrees_iff {arrayId : ArrayTypeId} (fits : Fits pool (.array arrayId))
    (agree : LayoutAgrees pool (pool.arrayDef arrayId).1) :
    LayoutAgrees pool (.array arrayId) ↔ FaithfulPart pool (.array arrayId) := by
  have elemFits : Fits pool (pool.arrayDef arrayId).1 := fits.component (List.mem_singleton.mpr rfl)
  have matched := matched_of_agrees elemFits agree
  have emptyAlign := align_eq_one_of_agrees elemFits agree
  have local_iff : (llvmShape pool (.array arrayId)) =
        ⟨(layoutOf .exact pool (.array arrayId)).size, (layoutOf .exact pool (.array arrayId)).align⟩ ↔
      FaithfulPart pool (.array arrayId) := by
    simp only [llvmShape, gruelTypeToLlvm_array, layoutOf_array, arrayToLlvm, arrayLayout,
      Words.exact_u64, FaithfulPart]
    generalize layoutOf .exact pool (pool.arrayDef arrayId).1 = elem at matched emptyAlign
    generalize (pool.arrayDef arrayId).2 = len
    cases lowered : gruelTypeToLlvm pool (pool.arrayDef arrayId).1 with
    | none =>
      rw [lowered] at matched
      have empty : elem.size = 0 := matched
      have one := emptyAlign empty
      by_cases zeroLen : len = 0
      · simp [zeroLen, one]
      · simp [zeroLen, one, empty]
    | some ty =>
      rw [lowered] at matched
      obtain ⟨nonzero, shape⟩ := matched
      by_cases zeroLen : len = 0
      · simp [zeroLen, eq_comm]
      · simp only [zeroLen, if_false, Option.map_some, LlvmTy.shape, shape, Shape.mk.injEq,
          and_true, false_implies, true_and, ne_eq, nonzero, not_false_eq_true, forall_const]
        rw [Nat.mul_right_inj nonzero]
        omega
  constructor
  · intro agrees
    exact local_iff.mp (shape_of_agrees fits agrees)
  · intro faithful
    apply agrees_of_shape fits (by simp) (local_iff.mpr faithful)
    intro _ _ _ _ _ strategy
    rw [layoutOf_array] at strategy
    cases strategy

theorem leaf_agrees (pool : LayoutPool) (isLeaf : ty.isLeaf = true) : LayoutAgrees pool ty := by
  have shape : llvmShape pool ty = ⟨(scalarLayout ty).size, (scalarLayout ty).align⟩ := by
    rw [llvmShape, gruelTypeToLlvm_isLeaf pool isLeaf]
    cases ty <;> first | rfl | cases isLeaf
  have leaf := layoutOf_isLeaf .machine pool isLeaf
  refine ⟨?_, ?_, ?_, ?_, ?_⟩
  · rw [leaf, shape]
  · rw [leaf, shape]
  · rintro id rfl
    cases isLeaf
  · rintro id rfl
    cases isLeaf
  · intro _ _ _ _ _ strategy
    rw [leaf] at strategy
    cases ty <;> cases strategy

theorem discriminant_llvm (declared : definition.variants ≠ []) :
    ∃ bits width, IsAlign width ∧ scalarToLlvm definition.discriminantType = some (.int bits) ∧
      (LlvmTy.int bits).shape = ⟨width, width⟩ ∧
      discriminantLayout definition = .scalar width width := by
  unfold discriminantLayout
  rcases discriminantType_cases definition with ty | ⟨empty, -⟩ | ⟨-, ty | ty | ty | ty⟩
  · exact ⟨32, 4, by simp [IsAlign], by rw [ty]; rfl, rfl, by rw [ty]; rfl⟩
  · exact absurd empty declared
  · exact ⟨8, 1, by simp [IsAlign], by rw [ty]; rfl, rfl, by rw [ty]; rfl⟩
  · exact ⟨16, 2, by simp [IsAlign], by rw [ty]; rfl, rfl, by rw [ty]; rfl⟩
  · exact ⟨32, 4, by simp [IsAlign], by rw [ty]; rfl, rfl, by rw [ty]; rfl⟩
  · exact ⟨64, 8, by simp [IsAlign], by rw [ty]; rfl, rfl, by rw [ty]; rfl⟩

theorem niche_agrees_iff (fits : Fits pool (.enum enumId)) (encoded : NicheEncodedEnum pool enumId) :
    LayoutAgrees pool (.enum enumId) ↔ FaithfulPart pool (.enum enumId) := by
  have found := encoded
  unfold NicheEncodedEnum at found
  rw [Option.isSome_iff_exists] at found
  obtain ⟨layout, found⟩ := found
  obtain ⟨-, data⟩ := nicheEncoded_size_pos found
  obtain ⟨_, _, unitVariant, dataVariant, _, niche, _, _, _, _, equal⟩ := nicheEncoded_payload found
  have exactLayout : layoutOf .exact pool (.enum enumId) = layout := by
    rw [layoutOf_enum, enumLayout_of_encoded found]
  have strategy : (layoutOf .machine pool (.enum enumId)).discriminant =
      some (.niche unitVariant dataVariant (niche.offset % 2 ^ 32) niche.width niche.start) := by
    rw [layoutOf_machine fits, exactLayout, equal]
    rfl
  have size : (layoutOf .machine pool (.enum enumId)).size = layout.size := by
    rw [layoutOf_machine fits, exactLayout, Layout.narrow_size]
  have lowered : gruelTypeToLlvm pool (.enum enumId) = some (.array .i8 (layout.size % 2 ^ 32)) := by
    rw [gruelTypeToLlvm_enum, enumToLlvm, if_neg data, strategy, size]
  have shape : llvmShape pool (.enum enumId) = ⟨layout.size % 2 ^ 32, 1⟩ := by
    simp [llvmShape, lowered, LlvmTy.shape, LlvmTy.i8, LlvmTy.scalarShape]
  simp only [FaithfulPart, encoded, if_true]
  constructor
  · intro agrees
    have same := shape_of_agrees fits agrees
    rw [shape, exactLayout, Shape.mk.injEq] at same
    rw [exactLayout]
    omega
  · intro faithful
    rw [exactLayout] at faithful
    apply agrees_of_shape fits (by simp)
    · rw [shape, exactLayout, faithful.1, Nat.mod_eq_of_lt faithful.2]
    · intro _ _ _ _ _ separate
      rw [strategy] at separate
      cases separate

theorem layoutOf_separate (plain : ¬ NicheEncodedEnum pool enumId) : layoutOf .exact pool (.enum enumId) =
      enumLayoutSeparate .exact (pool.enumDef enumId) (variantLayouts .exact pool (pool.enumDef enumId)) := by
  unfold NicheEncodedEnum at plain
  rw [Bool.not_eq_true, Option.isSome_eq_false_iff, Option.isNone_iff_eq_none] at plain
  rw [layoutOf_enum, enumLayout_of_not_encoded plain]

theorem unitOnly_agrees (fits : Fits pool (.enum enumId)) (plain : ¬ NicheEncodedEnum pool enumId)
    (unitOnly : (pool.enumDef enumId).isUnitOnly = true) : LayoutAgrees pool (.enum enumId) := by
  have exactLayout := layoutOf_separate plain
  have lowered : gruelTypeToLlvm pool (.enum enumId) = scalarToLlvm (pool.enumDef enumId).discriminantType := by
    rw [gruelTypeToLlvm_enum, enumToLlvm, if_pos unitOnly]
  apply agrees_of_shape fits (by simp)
  · simp only [llvmShape, lowered, exactLayout, enumLayoutSeparate, unitOnly, if_true,
      unitOnlyEnumLayout, discriminantLayout]
    rcases discriminantType_cases (pool.enumDef enumId) with ty | ⟨-, ty⟩ | ⟨-, ty | ty | ty | ty⟩ <;> rw [ty] <;> rfl
  · intro _ _ _ _ _ _ found
    rw [lowered] at found
    rcases discriminantType_cases (pool.enumDef enumId) with ty | ⟨-, ty⟩ | ⟨-, ty | ty | ty | ty⟩ <;>
      rw [ty] at found <;> cases found

theorem gruelTypeToLlvm_dataEnum (fits : Fits pool (.enum enumId))
    (plain : ¬ NicheEncodedEnum pool enumId) (data : ¬ (pool.enumDef enumId).isUnitOnly = true)
    (discriminant : scalarToLlvm (pool.enumDef enumId).discriminantType = some (.int bits)) :
    gruelTypeToLlvm pool (.enum enumId) = some
      (if maxPayload .exact (variantLayouts .exact pool (pool.enumDef enumId)) = 0 then .int bits
      else .struct [.int bits, .array
          (if (pool.enumDef enumId).isCLayout then
            (payloadElem (maxVariantAlign (variantLayouts .exact pool (pool.enumDef enumId)))).1
          else .i8)
          (payloadLength pool (pool.enumDef enumId) % 2 ^ 32)]) := by
  have exactLayout := layoutOf_separate plain
  have here := fits.here
  have bounded := parts_le_separate (variantLayouts .exact pool (pool.enumDef enumId)) data
  simp only [exactLayout] at here
  have payloadEq : maxPayload .machine (variantLayouts .machine pool (pool.enumDef enumId)) =
      maxPayload .exact (variantLayouts .exact pool (pool.enumDef enumId)) := by
    rw [variantLayouts_machine fits]
    exact maxPayload_machine (by omega)
  have alignEq : maxVariantAlign (variantLayouts .machine pool (pool.enumDef enumId)) =
      maxVariantAlign (variantLayouts .exact pool (pool.enumDef enumId)) := by
    rw [variantLayouts_machine fits]
    exact maxVariantAlign_narrow _
  obtain ⟨payloadOffset, strategy⟩ := discriminant_enumLayoutSeparate .exact (pool.enumDef enumId)
    (variantLayouts .exact pool (pool.enumDef enumId))
  have separate : ∃ tagWidth payloadOffset, (layoutOf .machine pool (.enum enumId)).discriminant =
        some (.separate 0 tagWidth payloadOffset) := by
    rw [layoutOf_machine fits, exactLayout]
    simp only [Layout.narrow, strategy]
    exact ⟨_, _, rfl⟩
  obtain ⟨tagWidth, _, separate⟩ := separate
  rw [gruelTypeToLlvm_enum, enumToLlvm, if_neg data, separate, discriminant]
  simp only [payloadToLlvm, payloadEq, alignEq, Option.map_some, payloadLength]
  by_cases isC : (pool.enumDef enumId).isCLayout = true
  · simp [isC]
  · simp [isC]

theorem taggedUnion_shape {tag payload : LlvmTy} {shape : Shape} (positive : 0 < width)
    (tagShape : tag.shape = ⟨width, width⟩) (payloadShape : payload.shape = shape) :
    (LlvmTy.struct [tag, payload]).shape = ⟨RecordLayout.alignUp (RecordLayout.alignUp width shape.align + shape.size)
          (max width (max shape.align 1)), max width (max shape.align 1)⟩ ∧
      RecordLayout.offsetsFrom 0 [tag.shape, payload.shape] = [0, RecordLayout.alignUp width shape.align] := by
  have first : RecordLayout.alignUp 0 width = 0 :=
    RecordLayout.alignUp_of_dvd positive (Nat.dvd_zero width)
  simp [LlvmTy.shape, LlvmTy.shapes, RecordLayout.record, RecordLayout.size, RecordLayout.endFrom,
    RecordLayout.maxAlign, RecordLayout.offsetsFrom, tagShape, payloadShape, first]

theorem payloadElem_shape (isAlign : IsAlign align) :
    (payloadElem align).1 = .int (8 * align) ∧ (payloadElem align).1.shape = ⟨align, align⟩ ∧
      (payloadElem align).2 = align := by
  rcases isAlign with rfl | rfl | rfl | rfl <;> exact ⟨rfl, rfl, rfl⟩

structure DataEnumShapes (pool : LayoutPool) (enumId : EnumId) (bits width payload : Nat)
    (elem : LlvmTy) (align count : Nat) : Prop where
  widthAlign : IsAlign width
  elemAlign : IsAlign align
  discriminant : scalarToLlvm (pool.enumDef enumId).discriminantType = some (.int bits)
  tagShape : (LlvmTy.int bits).shape = ⟨width, width⟩
  payloadEq : payload = maxPayload .exact (variantLayouts .exact pool (pool.enumDef enumId))
  countEq : count = payloadLength pool (pool.enumDef enumId)
  elemInt : elem = .int (8 * align)
  elemShape : elem.shape = ⟨align, align⟩
  lowered : gruelTypeToLlvm pool (.enum enumId) = some
    (if payload = 0 then .int bits else .struct [.int bits, .array elem (count % 2 ^ 32)])

theorem DataEnumShapes.llvmShape_eq (shapes : DataEnumShapes pool enumId bits width payload elem align count) :
    llvmShape pool (.enum enumId) = if payload = 0 then ⟨width, width⟩
      else ⟨RecordLayout.alignUp (RecordLayout.alignUp width align + align * (count % 2 ^ 32))
        (max width align), max width align⟩ := by
  have positive := shapes.elemAlign.pos
  have payloadShape : (LlvmTy.array elem (count % 2 ^ 32)).shape = ⟨align * (count % 2 ^ 32), align⟩ := by
    simp [LlvmTy.shape, shapes.elemShape]
  rw [llvmShape, shapes.lowered]
  by_cases empty : payload = 0
  · simp only [empty, if_true]
    exact shapes.tagShape
  · simp only [empty, if_false]
    rw [(taggedUnion_shape shapes.widthAlign.pos shapes.tagShape payloadShape).1,
      Nat.max_eq_left (show 1 ≤ align from positive)]

theorem DataEnumShapes.payload_offsets {discrim payloadTy : LlvmTy}
    (shapes : DataEnumShapes pool enumId bits width payload elem align count)
    (found : gruelTypeToLlvm pool (.enum enumId) = some (.struct [discrim, payloadTy])) :
    RecordLayout.offsetsFrom 0 [discrim.shape, payloadTy.shape] = [0, RecordLayout.alignUp width align] := by
  have payloadShape : (LlvmTy.array elem (count % 2 ^ 32)).shape = ⟨align * (count % 2 ^ 32), align⟩ := by
    simp [LlvmTy.shape, shapes.elemShape]
  rw [shapes.lowered] at found
  by_cases empty : payload = 0
  · simp [empty] at found
  · simp only [empty, if_false, Option.some.injEq] at found
    cases found
    exact (taggedUnion_shape shapes.widthAlign.pos shapes.tagShape payloadShape).2

section

variable (fits : Fits pool (.enum enumId))
include fits

theorem plain_dataEnumShapes (plain : ¬ NicheEncodedEnum pool enumId)
    (data : ¬ (pool.enumDef enumId).isUnitOnly = true)
    (notC : ¬ (pool.enumDef enumId).isCLayout = true) :
    ∃ bits width payload, DataEnumShapes pool enumId bits width payload .i8 1 payload ∧
      layoutOf .exact pool (.enum enumId) =
        { size := if payload = 0 then width else RecordLayout.alignUp (width + payload) width
          align := width
          discriminant := some (.separate 0 width width) } := by
  obtain ⟨bits, width, isAlign, discriminant, discrimShape, discrimLayout⟩ :=
    discriminant_llvm (variants_ne_nil_of_data data)
  have lowered := gruelTypeToLlvm_dataEnum fits plain data discriminant
  have length : payloadLength pool (pool.enumDef enumId) =
      maxPayload .exact (variantLayouts .exact pool (pool.enumDef enumId)) := by
    simp [payloadLength, notC]
  rw [if_neg notC, length] at lowered
  refine ⟨bits, width, _, ⟨isAlign, .inl rfl, discriminant, discrimShape, rfl, length.symm, rfl, rfl, lowered⟩, ?_⟩
  simp only [layoutOf_separate plain, enumLayoutSeparate, data, notC, dataEnumLayout, discrimLayout,
    Layout.scalar, alignUp_exact, Words.exact_u64, Words.exact_u8, Words.exact_u32]
  rfl

theorem c_dataEnumShapes (plain : ¬ NicheEncodedEnum pool enumId) (data : ¬ (pool.enumDef enumId).isUnitOnly = true)
    (isC : (pool.enumDef enumId).isCLayout = true) :
    ∃ payload elem align, DataEnumShapes pool enumId 32 4 payload elem align (elemCount payload align) ∧
      align = maxVariantAlign (variantLayouts .exact pool (pool.enumDef enumId)) ∧
      layoutOf .exact pool (.enum enumId) =
        { size := RecordLayout.alignUp (RecordLayout.alignUp 4 (max 4 align) +
            RecordLayout.alignUp payload (max 4 align)) (max 4 align)
          align := max 4 align
          discriminant := some (.separate 0 4 (RecordLayout.alignUp 4 (max 4 align))) } := by
  have discriminant : scalarToLlvm (pool.enumDef enumId).discriminantType = some (.int 32) := by
    simp [EnumDef.discriminantType, isC, scalarToLlvm]
  have lowered := gruelTypeToLlvm_dataEnum fits plain data discriminant
  have isAlign : IsAlign (maxVariantAlign (variantLayouts .exact pool (pool.enumDef enumId))) := by
    apply isAlign_maxVariantAlign
    intro _ inVariants _ inVariant
    obtain ⟨part, -, rfl⟩ := mem_variantLayouts inVariants inVariant
    exact isAlign_layoutOf .exact pool part
  obtain ⟨elemInt, elemShape, elemSize⟩ := payloadElem_shape isAlign
  have length : payloadLength pool (pool.enumDef enumId) =
      elemCount (maxPayload .exact (variantLayouts .exact pool (pool.enumDef enumId)))
        (maxVariantAlign (variantLayouts .exact pool (pool.enumDef enumId))) := by
    simp [payloadLength, isC, elemSize]
  rw [if_pos isC, length] at lowered
  refine ⟨_, _, _, ⟨.inr (.inr (.inl rfl)), isAlign, discriminant, rfl, rfl, length.symm, elemInt,
    elemShape, lowered⟩, rfl, ?_⟩
  simp only [layoutOf_separate plain, enumLayoutSeparate, data, isC, if_true, cEnumLayout,
    discriminantLayout_of_isCLayout isC, Layout.scalar, alignUp_exact, Words.exact_u64,
    Words.exact_u8, Words.exact_u32]
  rfl

theorem plain_data_agrees_iff (plain : ¬ NicheEncodedEnum pool enumId)
    (data : ¬ (pool.enumDef enumId).isUnitOnly = true)
    (notC : ¬ (pool.enumDef enumId).isCLayout = true) :
    LayoutAgrees pool (.enum enumId) ↔ payloadLength pool (pool.enumDef enumId) < 2 ^ 32 := by
  obtain ⟨_, width, payload, shapes, exactLayout⟩ := plain_dataEnumShapes fits plain data notC
  have isAlign := shapes.widthAlign
  have shape := shapes.llvmShape_eq
  rw [Nat.max_eq_left (show 1 ≤ width from isAlign.pos)] at shape
  rw [← shapes.countEq]
  have sameShape : llvmShape pool (.enum enumId) = ⟨(layoutOf .exact pool (.enum enumId)).size,
      (layoutOf .exact pool (.enum enumId)).align⟩ ↔ payload < 2 ^ 32 := by
    rw [shape, exactLayout]
    by_cases empty : payload = 0
    · simp [empty]
    · simp only [empty, if_false, Shape.mk.injEq, and_true]
      unfold RecordLayout.alignUp
      rcases isAlign with rfl | rfl | rfl | rfl <;> omega
  constructor
  · intro agrees
    exact sameShape.mp (shape_of_agrees fits agrees)
  · intro fitsWord
    apply agrees_of_shape fits (by simp) (sameShape.mpr fitsWord)
    intro _ _ _ _ _ separate found
    rw [layoutOf_machine fits, exactLayout] at separate
    obtain ⟨rfl, -, rfl⟩ := separate
    rw [shapes.payload_offsets found, RecordLayout.alignUp_one, Nat.mod_eq_of_lt]
    unfold IsAlign at isAlign
    omega

theorem maxVariantAlign_eq_one (agree : ∀ part ∈ pool.components (.enum enumId), LayoutAgrees pool part)
    (empty : maxPayload .exact (variantLayouts .exact pool (pool.enumDef enumId)) = 0) :
    maxVariantAlign (variantLayouts .exact pool (pool.enumDef enumId)) = 1 := by
  have ones : ∀ align ∈ (variantLayouts .exact pool (pool.enumDef enumId)).flatten.map Layout.align, align = 1 := by
    intro align member
    obtain ⟨field, inFlatten, rfl⟩ := List.mem_map.mp member
    obtain ⟨variant, inVariants, inVariant⟩ := List.mem_flatten.mp inFlatten
    have bounded : payloadSize .exact variant ≤ 0 := empty ▸ payloadSize_le_maxPayload inVariants
    have sizes : (variant.map Layout.size).sum = 0 := Nat.le_zero.mp bounded
    have fieldEmpty : field.size = 0 :=
      List.sum_eq_zero_iff_forall_eq_nat.mp sizes _ (List.mem_map_of_mem inVariant)
    obtain ⟨part, inEnum, rfl⟩ := mem_variantLayouts inVariants inVariant
    exact align_eq_one_of_agrees (fits.component inEnum) (agree part inEnum) fieldEmpty
  unfold maxVariantAlign
  generalize (variantLayouts .exact pool (pool.enumDef enumId)).flatten.map Layout.align = aligns at ones
  induction aligns with
  | nil => rfl
  | cons align rest ih =>
    rw [List.foldr_cons, ih fun other member => ones other (List.mem_cons_of_mem align member),
      ones align (List.mem_cons_self ..)]
    rfl

theorem c_data_agrees_iff (plain : ¬ NicheEncodedEnum pool enumId)
    (agree : ∀ part ∈ pool.components (.enum enumId), LayoutAgrees pool part)
    (data : ¬ (pool.enumDef enumId).isUnitOnly = true)
    (isC : (pool.enumDef enumId).isCLayout = true) :
    LayoutAgrees pool (.enum enumId) ↔ payloadLength pool (pool.enumDef enumId) < 2 ^ 32 := by
  obtain ⟨payload, _, align, shapes, alignEq, exactLayout⟩ := c_dataEnumShapes fits plain data isC
  have isAlign := shapes.elemAlign
  have shape := shapes.llvmShape_eq
  rw [← shapes.countEq]
  have emptyAlign : payload = 0 → align = 1 := by
    intro empty
    rw [alignEq]
    exact maxVariantAlign_eq_one fits agree (shapes.payloadEq ▸ empty)
  have sameShape : llvmShape pool (.enum enumId) = ⟨(layoutOf .exact pool (.enum enumId)).size,
      (layoutOf .exact pool (.enum enumId)).align⟩ ↔ elemCount payload align < 2 ^ 32 := by
    rw [shape, exactLayout]
    by_cases empty : payload = 0
    · rw [emptyAlign empty, empty]
      decide
    · simp only [empty, if_false, Shape.mk.injEq, and_true]
      unfold RecordLayout.alignUp elemCount
      rcases isAlign with rfl | rfl | rfl | rfl <;> simp <;> omega
  constructor
  · intro agrees
    exact sameShape.mp (shape_of_agrees fits agrees)
  · intro fitsWord
    apply agrees_of_shape fits (by simp) (sameShape.mpr fitsWord)
    intro _ _ _ _ _ separate found
    rw [layoutOf_machine fits, exactLayout] at separate
    obtain ⟨rfl, -, rfl⟩ := separate
    rw [shapes.payload_offsets found]
    rcases isAlign with rfl | rfl | rfl | rfl <;> decide

theorem enum_agrees_iff (agree : ∀ part ∈ pool.components (.enum enumId), LayoutAgrees pool part) :
    LayoutAgrees pool (.enum enumId) ↔ FaithfulPart pool (.enum enumId) := by
  by_cases encoded : NicheEncodedEnum pool enumId
  · exact niche_agrees_iff fits encoded
  · simp only [FaithfulPart, encoded, if_false]
    by_cases unitOnly : (pool.enumDef enumId).isUnitOnly = true
    · simp [unitOnly, unitOnly_agrees fits encoded unitOnly]
    · rw [or_iff_right unitOnly]
      by_cases isC : (pool.enumDef enumId).isCLayout = true
      · exact c_data_agrees_iff fits encoded agree unitOnly isC
      · exact plain_data_agrees_iff fits encoded unitOnly isC

end

theorem scalar_niche_offset (ty : Ty) : ∀ niche ∈ (scalarLayout ty).niches, niche.offset = 0 := by
  cases ty <;> simp [scalarLayout, Layout.scalar, Layout.zeroSized, Layout.bool, Layout.char]

theorem niche_offset_lt_of_faithful (faithful : pool.Everywhere (FaithfulPart pool) ty) :
    ∀ niche ∈ (layoutOf .exact pool ty).niches, niche.offset < 2 ^ 32 := by
  induction ty using pool.induction with
  | step ty ih =>
    intro niche member
    cases ty
    case struct id => exact faithful.here niche member
    case array id =>
      rw [layoutOf_array] at member
      cases member
    case enum id =>
      rw [layoutOf_enum] at member
      cases encoded : tryNicheEncodedEnumLayout (variantLayouts .exact pool (pool.enumDef id)) with
      | some layout =>
        rw [enumLayout_of_encoded encoded] at member
        obtain ⟨payload, inEnum, _, _, _, first, _, _, _, found, rfl⟩ :=
          nicheEncoded_payload encoded
        have small := ih payload inEnum (faithful.component inEnum) first (by simp [found])
        split at member
        · rw [List.mem_singleton] at member
          subst member
          exact small
        · cases member
      | none =>
        rw [enumLayout_of_not_encoded encoded] at member
        obtain ⟨-, offset, -, -⟩ := mem_separate_niches member
        omega
    all_goals
      rw [layoutOf_isLeaf .exact pool rfl] at member
      have offset := scalar_niche_offset _ niche member
      omega

theorem nicheOffsetsFit_of_faithful (faithful : pool.Everywhere (FaithfulPart pool) ty) : NicheOffsetsFit pool ty :=
  faithful.mono fun _ part => niche_offset_lt_of_faithful part

/-- `layoutOf` and LLVM agree on a type and on everything stored inside it exactly when every
part meets `FaithfulPart`, for every type whose parts have sizes a `u64` can hold. -/
theorem layout_agrees_iff {pool : LayoutPool} {ty : Ty} (fits : Fits pool ty) :
    pool.Everywhere (LayoutAgrees pool) ty ↔ pool.Everywhere (FaithfulPart pool) ty := by
  induction ty using pool.induction with
  | step ty ih =>
    have parts : (∀ part ∈ pool.components ty, pool.Everywhere (LayoutAgrees pool) part) ↔
        ∀ part ∈ pool.components ty, pool.Everywhere (FaithfulPart pool) part := by
      constructor
      · intro agree part member
        exact (ih part member (fits.component member)).mp (agree part member)
      · intro faithful part member
        exact (ih part member (fits.component member)).mpr (faithful part member)
    rw [LayoutPool.everywhere_iff, LayoutPool.everywhere_iff, parts]
    apply and_congr_left
    intro faithful
    have agree := parts.mpr faithful
    cases ty
    case struct id =>
      apply struct_agrees_iff fits
      · exact fun part member => (agree part member).here
      · exact fun part member => nicheOffsetsFit_of_faithful (faithful part member)
    case array id => exact array_agrees_iff fits (agree _ (List.mem_singleton.mpr rfl)).here
    case enum id => exact enum_agrees_iff fits fun part member => (agree part member).here
    all_goals exact iff_of_true (leaf_agrees pool rfl) trivial

theorem nestedOption_faithful : nestedOptionPool.Everywhere (FaithfulPart nestedOptionPool) (.struct 0) := by
  have bool : layoutOf .exact nestedOptionPool .bool = .bool := layoutOf_isLeaf .exact _ rfl
  have innerEncoded : NicheEncodedEnum nestedOptionPool 0 := by
    have variants : variantLayouts .exact nestedOptionPool (nestedOptionPool.enumDef 0) =
        [[], [layoutOf .exact nestedOptionPool .bool]] := rfl
    rw [NicheEncodedEnum, variants, bool]
    rfl
  have outerEncoded : NicheEncodedEnum nestedOptionPool 1 := by
    have variants : variantLayouts .exact nestedOptionPool (nestedOptionPool.enumDef 1) =
        [[], [layoutOf .exact nestedOptionPool (.enum 0)]] := rfl
    rw [NicheEncodedEnum, variants, layoutOf_nestedOption_inner]
    rfl
  apply nestedOptionPool_everywhere
  · trivial
  · trivial
  · simp [FaithfulPart, innerEncoded, layoutOf_nestedOption_inner]
  · simp [FaithfulPart, outerEncoded, layoutOf_nestedOption_outer]
  · simp [FaithfulPart, layoutOf_nestedOption_struct]

theorem layout_agrees_nestedOption : Fits nestedOptionPool (.struct 0) ∧
      nestedOptionPool.Everywhere (LayoutAgrees nestedOptionPool) (.struct 0) :=
  ⟨nestedOption_fits, (layout_agrees_iff nestedOption_fits).mpr nestedOption_faithful⟩

def charOptionPool : LayoutPool where
  structDef _ := { name := "S", fields := [⟨"a", .u8⟩, ⟨"b", .enum 0⟩] }
  enumDef _ := optionOf .char
  arrayDef _ := (.u8, 1)
  rank
    | .struct _ => 2
    | .enum _ => 1
    | .array _ => 1
    | _ => 0
  rank_lt := by
    intro ty part member
    rcases ty
    case struct =>
      simp only [TypeInternPool.components, StructDef.fieldTypes, List.map_cons, List.map_nil,
        List.mem_cons, List.not_mem_nil, or_false] at member
      rcases member with rfl | rfl
      · exact Nat.succ_pos 1
      · exact Nat.lt_succ_self 1
    case enum id =>
      have payload : part = .char := by simpa [TypeInternPool.components, optionOf] using member
      subst payload
      exact Nat.one_pos
    case array =>
      have element : part = .u8 := by simpa [TypeInternPool.components] using member
      subst element
      exact Nat.one_pos
    all_goals cases member

theorem layoutOf_charOption : layoutOf .machine charOptionPool (.enum 0) =
    { size := 4
      align := 4
      niches := [⟨0, 4, 0xD801, 0xDFFF⟩]
      discriminant := some (.niche 0 1 0 4 0xD800) } := by
  have variants : variantLayouts .machine charOptionPool (charOptionPool.enumDef 0) =
      [[], [layoutOf .machine charOptionPool .char]] := rfl
  have char : layoutOf .machine charOptionPool .char = .char := layoutOf_isLeaf .machine _ rfl
  rw [layoutOf_enum, variants, char]
  rfl

/-- The layout puts the option at byte 4 of 8, LLVM at byte 1 of 5. -/
theorem not_layoutAgrees_charOption : ¬ LayoutAgrees charOptionPool (.struct 0) := by
  intro agrees
  have fields : (charOptionPool.structDef 0).fieldTypes = [.u8, .enum 0] := rfl
  have u8 : layoutOf .machine charOptionPool .u8 = .scalar 1 1 := layoutOf_isLeaf .machine _ rfl
  have u8Lowered : gruelTypeToLlvm charOptionPool .u8 = some (.int 8) :=
    gruelTypeToLlvm_isLeaf _ rfl
  have optionLowered : gruelTypeToLlvm charOptionPool (.enum 0) = some (.array .i8 4) := by
    rw [gruelTypeToLlvm_enum, layoutOf_charOption]
    rfl
  have size := agrees.size
  rw [layoutOf_struct, llvmShape_struct, fields] at size
  simp only [List.map_cons, List.map_nil, u8, layoutOf_charOption, u8Lowered, optionLowered] at size
  revert size
  decide

end Gruel
