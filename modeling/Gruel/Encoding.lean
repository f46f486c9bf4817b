import Gruel.EncodingCore

/-!
Soundness of niches.  Offsets recorded in the struct scan are traced back to the field
they belong to, every niche of an exact layout is placed inside the type, and the two
facts carry the forbidden ranges through every nesting of structs, arrays and enums.
-/

namespace Gruel

open ByteMemory
open RecordLayout (le_alignUp)

variable {pool : LayoutPool} {ty : Ty} {words : Words} {definition : EnumDef}
  {variants : List (List Layout)} {id : EnumId} {fields : List Layout} {niche : NicheRange}

variable {scan : StructScan} {index offset unitVariant dataVariant nicheOffset nicheWidth nicheValue base : Nat}
  {field layout : Layout} {memory : Memory} {datum : Datum} {property : Ty → Prop}

theorem structFieldOffsets_machine (fields : List Layout) (scan : StructScan)
    (aligned : ∀ field ∈ fields, IsAlign field.align)
    (fits : (fields.foldl (StructScan.addField .exact) scan).offset < 2 ^ 64) :
    structFieldOffsets .machine scan.narrow (fields.map Layout.narrow) = structFieldOffsets .exact scan fields := by
  induction fields generalizing scan with
  | nil => rfl
  | cons field rest ih =>
    have restAligned : ∀ other ∈ rest, IsAlign other.align := fun other member =>
      aligned other (List.mem_cons_of_mem field member)
    have isAlign := aligned field (List.mem_cons_self ..)
    have later := scan_offset_le rest (scan.addField .exact field) restAligned
    rw [List.foldl_cons] at fits
    simp only [List.map_cons, structFieldOffsets, Layout.narrow_size, Layout.narrow_align]
    rw [addField_machine scan field isAlign (by omega), ih _ restAligned fits]
    congr 1
    by_cases empty : field.size = 0
    · simp [empty]
    · simp only [empty, if_false, alignUp_exact, Option.some.injEq]
      rw [StructScan.addField_offset .exact scan empty, Words.exact_u64, alignUp_exact] at later
      have below : RecordLayout.alignUp scan.offset field.align < 2 ^ 64 := by omega
      exact alignUp_machine isAlign below

theorem fieldOffsets_machine {id : StructId} (fits : Fits pool (.struct id)) :
    fieldOffsets .machine pool id = fieldOffsets .exact pool id := by
  have aligned : ∀ field ∈ (pool.structDef id).fieldTypes.map (layoutOf .exact pool), IsAlign field.align := by
    intro field member
    obtain ⟨part, _, rfl⟩ := List.mem_map.mp member
    exact isAlign_layoutOf .exact pool part
  have here := fits.here
  simp only [layoutOf_struct, structLayout] at here
  have offsetLe := scan_offset_le_layout_size _ (isAlign_scan .exact _ {} aligned (.inl rfl))
  have narrowed : (pool.structDef id).fieldTypes.map (layoutOf .machine pool) =
      ((pool.structDef id).fieldTypes.map (layoutOf .exact pool)).map Layout.narrow := by
    rw [List.map_map]
    apply List.map_congr_left
    intro part member
    exact layoutOf_machine (fits.component member)
  unfold fieldOffsets
  rw [narrowed]
  exact structFieldOffsets_machine _ {} aligned (by omega)

theorem mem_scan_niches (member : niche ∈ (fields.foldl (StructScan.addField .exact) scan).niches) :
    niche ∈ scan.niches ∨ ∃ (index : Nat) (field : Layout) (offset : Nat) (inner : NicheRange),
      fields[index]? = some field ∧ (structFieldOffsets .exact scan fields)[index]? = some (some offset) ∧
        inner ∈ field.niches ∧ niche = { inner with offset := inner.offset + offset } := by
  induction fields generalizing scan with
  | nil => exact .inl member
  | cons field rest ih =>
    rcases ih member with before | ⟨index, other, offset, inner, found, placed, inOther, equal⟩
    · by_cases empty : field.size = 0
      · simp only [StructScan.addField, empty, if_true] at before
        exact .inl before
      · simp only [StructScan.addField, empty, if_false, List.mem_append, List.mem_map,
          alignUp_exact, Words.exact_u32] at before
        rcases before with before | ⟨inner, inField, rfl⟩
        · exact .inl before
        · refine .inr ⟨0, field, RecordLayout.alignUp scan.offset field.align, inner, rfl, ?_, inField, rfl⟩
          simp [structFieldOffsets, empty, alignUp_exact]
    · exact .inr ⟨index + 1, other, offset, inner, by simpa using found,
        by simpa [structFieldOffsets] using placed, inOther, equal⟩

theorem placed_head {head : Layout} {rest : List Layout}
    (placed : (structFieldOffsets .exact scan (head :: rest))[0]? = some (some offset)) :
    head.size ≠ 0 ∧ RecordLayout.alignUp scan.offset head.align = offset := by
  by_cases empty : head.size = 0
  · simp [structFieldOffsets, empty] at placed
  · simpa [structFieldOffsets, empty, alignUp_exact] using placed

theorem offset_add_size_le_scan (aligned : ∀ field ∈ fields, IsAlign field.align)
    (found : fields[index]? = some field)
    (placed : (structFieldOffsets .exact scan fields)[index]? = some (some offset)) :
    offset + field.size ≤ (fields.foldl (StructScan.addField .exact) scan).offset := by
  induction fields generalizing scan index with
  | nil => simp at found
  | cons head rest ih =>
    have restAligned : ∀ other ∈ rest, IsAlign other.align := fun other member =>
      aligned other (List.mem_cons_of_mem head member)
    cases index with
    | zero =>
      simp only [List.getElem?_cons_zero, Option.some.injEq] at found
      subst found
      have later := scan_offset_le rest (scan.addField .exact head) restAligned
      obtain ⟨nonempty, rfl⟩ := placed_head placed
      rw [StructScan.addField_offset .exact scan nonempty, Words.exact_u64] at later
      exact later
    | succ index =>
      exact ih restAligned found placed

theorem offset_add_size_le_structLayout (aligned : ∀ field ∈ fields, IsAlign field.align)
    (found : fields[index]? = some field)
    (placed : (structFieldOffsets .exact {} fields)[index]? = some (some offset)) :
    offset + field.size ≤ (structLayout .exact fields).size := by
  have ends := offset_add_size_le_scan aligned found placed
  have rounds := scan_offset_le_layout_size _ (isAlign_scan .exact fields {} aligned (.inl rfl))
  unfold structLayout
  omega

theorem mem_struct_niches {id : StructId} (member : niche ∈ (layoutOf .exact pool (.struct id)).niches) :
    ∃ (index : Nat) (ty : Ty) (offset : Nat) (inner : NicheRange), (pool.structDef id).fieldTypes[index]? = some ty ∧
        (fieldOffsets .exact pool id)[index]? = some (some offset) ∧
        inner ∈ (layoutOf .exact pool ty).niches ∧
        niche = { inner with offset := inner.offset + offset } ∧
        offset + (layoutOf .exact pool ty).size ≤ (layoutOf .exact pool (.struct id)).size := by
  rw [layoutOf_struct] at member ⊢
  rcases mem_scan_niches member with impossible | ⟨index, _, offset, inner, found, placed, inField, equal⟩
  · cases impossible
  · have inside := offset_add_size_le_structLayout (by
      intro _ otherMember
      obtain ⟨part, -, rfl⟩ := List.mem_map.mp otherMember
      exact isAlign_layoutOf .exact pool part) found placed
    rw [List.getElem?_map, Option.map_eq_some_iff] at found
    obtain ⟨ty, atIndex, rfl⟩ := found
    exact ⟨index, ty, offset, inner, atIndex, placed, inField, equal, inside⟩

theorem mem_separate_niches (member : niche ∈ (enumLayoutSeparate words definition variants).niches) :
    definition.isUnitOnly = true ∧ niche.offset = 0 ∧ niche.width = words.u8 (discriminantLayout definition).size ∧
      niche.start = definition.variants.length := by
  unfold enumLayoutSeparate at member
  split at member
  · rename_i unitOnly
    simp only [unitOnlyEnumLayout, unitOnlyEnumNiches] at member
    split at member
    · rw [List.mem_singleton] at member
      subst member
      exact ⟨unitOnly, rfl, rfl, rfl⟩
    · cases member
  · split at member
    · cases member
    · cases member

theorem discriminant_enumLayoutSeparate (words : Words) (definition : EnumDef) (variants : List (List Layout)) :
    ∃ payloadOffset, (enumLayoutSeparate words definition variants).discriminant =
      some (.separate 0 (words.u8 (discriminantLayout definition).size) payloadOffset) := by
  unfold enumLayoutSeparate
  split
  · exact ⟨_, rfl⟩
  · split
    · exact ⟨_, rfl⟩
    · exact ⟨_, rfl⟩

theorem enumLayout_of_encoded (encoded : tryNicheEncodedEnumLayout variants = some layout) :
    enumLayout words definition variants = layout := by
  simp [enumLayout, encoded]

theorem enumLayout_of_not_encoded (plain : tryNicheEncodedEnumLayout variants = none) :
    enumLayout words definition variants = enumLayoutSeparate words definition variants := by
  simp [enumLayout, plain]

theorem discriminantLayout_size_le_separate (definition : EnumDef)
    (variants : List (List Layout)) (unitOnly : definition.isUnitOnly = true) :
    (enumLayoutSeparate .exact definition variants).size = (discriminantLayout definition).size := by
  simp [enumLayoutSeparate, unitOnly, unitOnlyEnumLayout]

theorem nicheEncoded_payload
    (encoded : tryNicheEncodedEnumLayout (variantLayouts words pool (pool.enumDef id)) = some layout) :
    ∃ payload ∈ pool.components (.enum id), ∃ unitVariant dataVariant variant niche rest,
      (pool.enumDef id).variants[dataVariant]? = some variant ∧ variant.fields = [payload] ∧
      (layoutOf words pool payload).niches = niche :: rest ∧
      layout =
        { size := (layoutOf words pool payload).size
          align := (layoutOf words pool payload).align
          niches :=
            if niche.start + 1 ≤ niche.stop then [{ niche with start := niche.start + 1 }] else []
          discriminant := some (.niche unitVariant dataVariant niche.offset niche.width niche.start) } := by
  obtain ⟨payloadLayout, niche, rest, unitVariant, dataVariant, shape, found, equal⟩ :=
    tryNicheEncodedEnumLayout_cases encoded
  have declared : (variantLayouts words pool (pool.enumDef id))[dataVariant]? = some [payloadLayout] := by
    rcases shape with ⟨variants, -, rfl⟩ | ⟨variants, -, rfl⟩
    · rw [variants]; rfl
    · rw [variants]; rfl
  rw [variantLayouts, List.getElem?_map, Option.map_eq_some_iff] at declared
  obtain ⟨variant, atIndex, fields⟩ := declared
  obtain ⟨payload, fieldsEq, layoutEq⟩ := List.map_eq_singleton_iff.mp fields
  have inEnum := List.mem_of_getElem? atIndex
  refine ⟨payload, ?_, unitVariant, dataVariant, variant, niche, rest, atIndex, fieldsEq, ?_, ?_⟩
  · exact List.mem_flatMap.mpr ⟨variant, inEnum, by simp [fieldsEq]⟩
  · rw [layoutEq]
    exact found
  · rw [layoutEq]
    exact equal

/-- What every way to make a layout keeps, each layout has; of the payload's niches an encoded enum
has the first one left, less a pattern. -/
theorem layoutOf_induction {motive : Layout → Prop}
    (struct : ∀ fields, (∀ field ∈ fields, IsAlign field.align ∧ motive field) → motive (structLayout words fields))
    (array : ∀ element length, IsAlign element.align → motive element → motive (arrayLayout words element length))
    (encoded : ∀ (payload : Layout) niches discriminant, (∀ niche ∈ niches, ∃ first ∈ payload.niches,
        first.start + 1 ≤ first.stop ∧ niche = { first with start := first.start + 1 }) →
      motive payload → motive { payload with niches, discriminant })
    (separate : ∀ definition variants, motive (enumLayoutSeparate words definition variants))
    (scalar : ∀ ty, motive (scalarLayout ty)) (ty : Ty) : motive (layoutOf words pool ty) := by
  induction ty using pool.induction with
  | step ty ih =>
    cases ty
    case struct id =>
      rw [layoutOf_struct]
      apply struct
      intro field member
      obtain ⟨part, inFields, rfl⟩ := List.mem_map.mp member
      exact ⟨isAlign_layoutOf words pool part, ih part inFields⟩
    case array id =>
      rw [layoutOf_array]
      exact array _ _ (isAlign_layoutOf words pool _) (ih _ (List.mem_singleton.mpr rfl))
    case enum id =>
      rw [layoutOf_enum]
      cases found : tryNicheEncodedEnumLayout (variantLayouts words pool (pool.enumDef id)) with
      | some layout =>
        rw [enumLayout_of_encoded found]
        obtain ⟨payload, inEnum, _, _, _, first, _, -, -, inPayload, rfl⟩ := nicheEncoded_payload found
        refine encoded _ _ _ (fun niche member => ⟨first, by simp [inPayload], ?_⟩) (ih payload inEnum)
        split at member
        · next remaining => exact ⟨remaining, List.mem_singleton.mp member⟩
        · cases member
      | none =>
        rw [enumLayout_of_not_encoded found]
        exact separate _ _
    all_goals
      rw [layoutOf_leaf words pool (by simp) (by simp) (by simp)]
      exact scalar _

theorem scalar_niche_inside (ty : Ty) : ∀ niche ∈ (scalarLayout ty).niches,
    niche.offset + niche.width ≤ (scalarLayout ty).size := by
  cases ty <;> simp [scalarLayout, Layout.scalar, Layout.zeroSized, Layout.bool, Layout.char]

theorem niches_machine (fits : Fits pool ty) (offsetsFit : NicheOffsetsFit pool ty) :
    (layoutOf .machine pool ty).niches = (layoutOf .exact pool ty).niches := by
  rw [layoutOf_machine fits]
  conv => rhs; rw [← List.map_id (layoutOf .exact pool ty).niches]
  apply List.map_congr_left
  intro niche member
  have small := offsetsFit.here niche member
  rw [NicheRange.narrow, Nat.mod_eq_of_lt small]
  rfl

theorem leaf_avoids_niche {bits : Nat} (valid : ValidBits ty bits) :
    ∀ niche ∈ (scalarLayout ty).niches, niche.offset = 0 ∧ niche.width = (scalarLayout ty).size ∧
      ¬ niche.Contains bits := by
  intro niche member
  cases ty
  case bool =>
    simp only [scalarLayout, Layout.bool, List.mem_singleton] at member
    subst member
    simp only [ValidBits] at valid
    simp only [NicheRange.Contains, scalarLayout, Layout.bool, true_and]
    omega
  case char =>
    simp only [scalarLayout, Layout.char, List.mem_cons, List.not_mem_nil, or_false] at member
    simp only [ValidBits] at valid
    rcases member with rfl | rfl
    · simp only [NicheRange.Contains, scalarLayout, Layout.char, true_and]
      omega
    · simp only [NicheRange.Contains, scalarLayout, Layout.char, true_and]
      omega
  all_goals cases member

theorem layoutOf_isLeaf (words : Words) (pool : LayoutPool) (isLeaf : ty.isLeaf = true) :
    layoutOf words pool ty = scalarLayout ty := by
  apply layoutOf_leaf
  · rintro id rfl
    cases isLeaf
  · rintro id rfl
    cases isLeaf
  · rintro id rfl
    cases isLeaf

theorem separate_strategy_niches {tagOffset tagWidth payloadOffset : Nat}
    (strategy : (layoutOf words pool (.enum id)).discriminant = some (.separate tagOffset tagWidth payloadOffset)) :
    ∀ niche ∈ (layoutOf words pool (.enum id)).niches,
      niche.offset = tagOffset ∧ niche.width = tagWidth ∧ niche.start = (pool.enumDef id).variants.length := by
  intro niche member
  rw [layoutOf_enum] at strategy member
  cases encoded : tryNicheEncodedEnumLayout (variantLayouts words pool (pool.enumDef id)) with
  | some layout =>
    rw [enumLayout_of_encoded encoded] at strategy
    obtain ⟨_, _, _, _, _, _, _, _, _, _, rfl⟩ := nicheEncoded_payload encoded
    cases strategy
  | none =>
    rw [enumLayout_of_not_encoded encoded] at strategy member
    obtain ⟨-, offset, width, start⟩ := mem_separate_niches member
    obtain ⟨_, discriminant⟩ :=
      discriminant_enumLayoutSeparate words (pool.enumDef id) (variantLayouts words pool (pool.enumDef id))
    rw [discriminant, Option.some.injEq, DiscriminantStrategy.separate.injEq] at strategy
    exact ⟨by omega, by omega, start⟩

theorem niche_strategy_payload (strategy : (layoutOf words pool (.enum id)).discriminant =
      some (.niche unitVariant dataVariant nicheOffset nicheWidth nicheValue)) :
    ∃ payload ∈ pool.components (.enum id), ∃ variant niche,
      (pool.enumDef id).variants[dataVariant]? = some variant ∧ variant.fields = [payload] ∧
      niche ∈ (layoutOf words pool payload).niches ∧ niche.offset = nicheOffset ∧
      niche.width = nicheWidth ∧ niche.start = nicheValue ∧
      ∀ left ∈ (layoutOf words pool (.enum id)).niches,
        left = { niche with start := niche.start + 1 } ∧ niche.start + 1 ≤ niche.stop := by
  rw [layoutOf_enum] at strategy ⊢
  cases encoded : tryNicheEncodedEnumLayout (variantLayouts words pool (pool.enumDef id)) with
  | some layout =>
    rw [enumLayout_of_encoded encoded] at strategy ⊢
    obtain ⟨payload, inEnum, _, _, variant, niche, _, declared, fields, found, rfl⟩ :=
      nicheEncoded_payload encoded
    obtain ⟨rfl, rfl, rfl, rfl, rfl⟩ := strategy
    refine ⟨payload, inEnum, variant, niche, declared, fields, by simp [found], rfl, rfl, rfl, ?_⟩
    intro left member
    split at member
    · rename_i remaining
      exact ⟨List.mem_singleton.mp member, remaining⟩
    · cases member
  | none =>
    rw [enumLayout_of_not_encoded encoded] at strategy
    obtain ⟨payload, discriminant⟩ :=
      discriminant_enumLayoutSeparate words (pool.enumDef id) (variantLayouts words pool (pool.enumDef id))
    rw [discriminant] at strategy
    cases strategy

theorem encodes_avoids_niche (encoded : Encodes pool memory ty datum base) (fits : Fits pool ty)
    (offsetsFit : NicheOffsetsFit pool ty) :
    ∀ niche ∈ (layoutOf .machine pool ty).niches,
      ¬ niche.Contains (readLe memory (base + niche.offset) niche.width) := by
  induction encoded with
  | leaf isLeaf valid stored =>
    intro niche member
    rw [layoutOf_isLeaf .machine pool isLeaf] at member stored
    obtain ⟨offset, width, avoids⟩ := leaf_avoids_niche valid niche member
    rw [offset, width, Nat.add_zero, stored]
    exact avoids
  | @struct id fields base arity placed ih =>
    intro niche member
    rw [niches_machine fits offsetsFit] at member
    obtain ⟨index, ty, offset, inner, atIndex, offsetAt, inField, rfl, -⟩ :=
      mem_struct_niches member
    have inComponents : ty ∈ pool.components (.struct id) := List.mem_of_getElem? atIndex
    have bound : index < fields.length := by
      rw [arity]
      exact (List.getElem?_eq_some_iff.mp atIndex).1
    rw [← fieldOffsets_machine fits] at offsetAt
    have fieldFits := fits.component inComponents
    have fieldOffsetsFit := offsetsFit.component inComponents
    rw [← niches_machine fieldFits fieldOffsetsFit] at inField
    have avoids := ih index ty fields[index] offset atIndex (List.getElem?_eq_getElem bound)
      offsetAt fieldFits fieldOffsetsFit inner inField
    rw [Nat.add_comm inner.offset offset, ← Nat.add_assoc]
    exact avoids
  | array arity placed ih =>
    intro niche member
    rw [layoutOf_array] at member
    cases member
  | @separate id index base tagOffset tagWidth payloadOffset variant fields strategy declared arity
      tagged placed ih =>
      intro niche member
      obtain ⟨offset, width, start⟩ := separate_strategy_niches strategy niche member
      have bound := (List.getElem?_eq_some_iff.mp declared).1
      rw [offset, width, tagged]
      simp only [NicheRange.Contains]
      omega
  | @nicheUnit id base unitVariant dataVariant nicheOffset nicheWidth nicheValue strategy tagged =>
    intro niche member
    obtain ⟨payload, -, -, first, -, -, -, offset, width, start, left⟩ :=
      niche_strategy_payload strategy
    obtain ⟨rfl, -⟩ := left niche member
    simp only [NicheRange.Contains]
    rw [offset, width, tagged]
    omega
  | @nicheData id base unitVariant dataVariant nicheOffset nicheWidth nicheValue variant ty datum
      strategy declared payload placed ih =>
      intro niche member
      obtain ⟨_, inEnum, _, first, otherDeclared, otherPayload, inPart, -, -, -, left⟩ :=
        niche_strategy_payload strategy
      rw [declared, Option.some.injEq] at otherDeclared
      subst otherDeclared
      rw [payload, List.cons.injEq] at otherPayload
      obtain ⟨rfl, -⟩ := otherPayload
      have avoids := ih (fits.component inEnum) (offsetsFit.component inEnum) first inPart
      obtain ⟨rfl, -⟩ := left niche member
      simp only [NicheRange.Contains] at avoids ⊢
      omega

/-- A niche over a whole machine integer that forbids at least one of its patterns. -/
structure NicheRange.WellFormed (niche : NicheRange) : Prop where
  width : IsAlign niche.width
  nonempty : niche.start ≤ niche.stop
  stop_lt : niche.stop < 256 ^ niche.width

theorem scalar_niche_wellFormed (ty : Ty) : ∀ niche ∈ (scalarLayout ty).niches, niche.WellFormed := by
  intro niche member
  cases ty
  case bool =>
    rw [List.mem_singleton.mp member]
    exact ⟨.inl rfl, by decide, by decide⟩
  case char =>
    rcases List.mem_cons.mp member with rfl | member
    · exact ⟨.inr (.inr (.inl rfl)), by decide, by decide⟩
    · rw [List.mem_singleton.mp member]
      exact ⟨.inr (.inr (.inl rfl)), by decide, by decide⟩
  all_goals cases member

theorem maxForWidth_lt {width : Nat} (isAlign : IsAlign width) : NicheRange.maxForWidth width < 256 ^ width := by
  rcases isAlign with rfl | rfl | rfl | rfl <;> decide

theorem isAlign_discriminantLayout_size (declared : definition.variants ≠ []) :
    IsAlign (discriminantLayout definition).size := by
  rcases discriminantLayout_cases definition with ⟨empty, -⟩ | ⟨_, isAlign, layout⟩
  · exact absurd empty declared
  · rw [layout]
    exact isAlign

theorem separate_niche_wellFormed :
    ∀ niche ∈ (enumLayoutSeparate .exact definition variants).niches, niche.WellFormed := by
  intro niche member
  unfold enumLayoutSeparate at member
  split at member
  · simp only [unitOnlyEnumLayout, unitOnlyEnumNiches] at member
    split at member
    · rename_i usable
      rw [List.mem_singleton] at member
      subst member
      have isAlign := isAlign_discriminantLayout_size (List.length_pos_iff.mp usable.1)
      exact ⟨isAlign, usable.2, maxForWidth_lt isAlign⟩
    · cases member
  · split at member
    · cases member
    · cases member

theorem exact_niche_sound (pool : LayoutPool) (ty : Ty) : ∀ niche ∈ (layoutOf .exact pool ty).niches,
    niche.offset + niche.width ≤ (layoutOf .exact pool ty).size ∧ niche.WellFormed := by
  refine layoutOf_induction (motive := fun layout => ∀ niche ∈ layout.niches,
    niche.offset + niche.width ≤ layout.size ∧ niche.WellFormed) ?_ ?_ ?_ ?_ ?_ ty
  · intro fields parts niche member
    rcases mem_scan_niches member with impossible | ⟨_, field, _, inner, found, placed, inField, rfl⟩
    · cases impossible
    · obtain ⟨inside, wellFormed⟩ := (parts field (List.mem_of_getElem? found)).2 inner inField
      have ends := offset_add_size_le_structLayout (fun part member => (parts part member).1) found placed
      refine ⟨?_, wellFormed.width, wellFormed.nonempty, wellFormed.stop_lt⟩
      simp only
      omega
  · intro _ _ _ _ _ member
    cases member
  · intro _ _ _ left payload niche member
    obtain ⟨first, inPayload, remaining, rfl⟩ := left niche member
    obtain ⟨inside, wellFormed⟩ := payload first inPayload
    exact ⟨inside, wellFormed.width, remaining, wellFormed.stop_lt⟩
  · intro definition variants niche member
    refine ⟨?_, separate_niche_wellFormed niche member⟩
    obtain ⟨unitOnly, offset, width, -⟩ := mem_separate_niches member
    rw [discriminantLayout_size_le_separate _ _ unitOnly, offset, width]
    simp
  · exact fun ty niche member => ⟨scalar_niche_inside ty niche member, scalar_niche_wellFormed ty niche member⟩

theorem nichesSound_of_fits (fits : Fits pool ty) (offsetsFit : NicheOffsetsFit pool ty) : NichesSound pool ty := by
  intro niche member
  constructor
  · rw [niches_machine fits offsetsFit] at member
    rw [layoutOf_machine fits, Layout.narrow_size]
    exact (exact_niche_sound pool ty niche member).1
  · intro _ _ _ encoded
    exact encodes_avoids_niche encoded fits offsetsFit niche member

theorem payload_avoids_nicheValue (fits : Fits pool (.enum id))
    (offsetsFit : NicheOffsetsFit pool (.enum id)) (strategy : strategyOf pool id =
      some (.niche unitVariant dataVariant nicheOffset nicheWidth nicheValue))
    (encoded : Encodes pool memory (.enum id) (.variant dataVariant [datum]) base) :
    readLe memory (base + nicheOffset) nicheWidth ≠ nicheValue := by
  obtain ⟨payload, inEnum, variant, niche, declared, fields, inPayload, offset, width, _, -⟩ :=
    niche_strategy_payload strategy
  cases encoded with
  | separate otherStrategy =>
    rw [strategy] at otherStrategy
    cases otherStrategy
  | nicheData otherStrategy otherDeclared otherFields placed =>
    rw [declared, Option.some.injEq] at otherDeclared
    subst otherDeclared
    rw [fields, List.cons.injEq] at otherFields
    obtain ⟨rfl, -⟩ := otherFields
    have payloadFits := fits.component inEnum
    have payloadOffsetsFit := offsetsFit.component inEnum
    have avoids := encodes_avoids_niche placed payloadFits payloadOffsetsFit niche inPayload
    rw [niches_machine payloadFits payloadOffsetsFit] at inPayload
    have nonempty := (exact_niche_sound pool payload niche inPayload).2.nonempty
    rw [offset, width] at avoids
    simp only [NicheRange.Contains] at avoids
    omega

theorem unitVariantDistinct_of_fits (fits : Fits pool ty) (offsetsFit : NicheOffsetsFit pool ty) :
    UnitVariantDistinct pool ty := by
  intro _ _ _ _ _ strategy _ _ datum base unitEncoded dataEncoded same
  cases unitEncoded with
  | separate otherStrategy =>
    rw [← strategyOf, otherStrategy] at strategy
    cases strategy
  | nicheUnit otherStrategy tagged =>
    have strategies := otherStrategy
    rw [strategyOf, strategy, Option.some.injEq, DiscriminantStrategy.niche.injEq] at strategies
    obtain ⟨-, -, rfl, rfl, rfl⟩ := strategies
    exact payload_avoids_nicheValue fits offsetsFit strategy dataEncoded (same ▸ tagged)

/-- Niches are sound for every type that the layout's own words can describe: no part is too
large for a `u64` and no niche sits at an offset too large for a `u32`. -/
theorem niches_sound {pool : LayoutPool} {ty : Ty} (fits : Fits pool ty)
    (offsetsFit : NicheOffsetsFit pool ty) : NichesSound pool ty ∧ UnitVariantDistinct pool ty :=
  ⟨nichesSound_of_fits fits offsetsFit, unitVariantDistinct_of_fits fits offsetsFit⟩

theorem LayoutPool.everywhere_of_isLeaf (isLeaf : ty.isLeaf = true) (here : property ty) :
    pool.Everywhere property ty := by
  refine LayoutPool.everywhere_iff.mpr ⟨here, ?_⟩
  intro _ member
  have none : pool.components ty = [] := by
    cases ty <;> first | rfl | cases isLeaf
  rw [none] at member
  cases member

def optionOf (payload : Ty) : EnumDef where
  name := "Option"
  variants := [{ name := "None", fields := [] }, { name := "Some", fields := [payload] }]

def nestedOptionPool : LayoutPool where
  structDef _ := { name := "S", fields := [⟨"a", .u32⟩, ⟨"b", .enum 1⟩] }
  enumDef
    | 0 => optionOf .bool
    | _ => optionOf (.enum 0)
  arrayDef _ := (.u8, 1)
  rank
    | .struct _ => 3
    | .enum 0 => 1
    | .enum _ => 2
    | .array _ => 1
    | _ => 0
  rank_lt := by
    intro ty part member
    rcases ty
    case struct =>
      simp only [TypeInternPool.components, StructDef.fieldTypes, List.map_cons, List.map_nil,
        List.mem_cons, List.not_mem_nil, or_false] at member
      rcases member with rfl | rfl
      · exact Nat.succ_pos 2
      · exact Nat.lt_succ_self 2
    case enum id =>
      rcases id with _ | id
      · have payload : part = .bool := by simpa [TypeInternPool.components, optionOf] using member
        subst payload
        exact Nat.one_pos
      · have payload : part = .enum 0 := by simpa [TypeInternPool.components, optionOf] using member
        subst payload
        exact Nat.lt_succ_self 1
    case array =>
      have element : part = .u8 := by simpa [TypeInternPool.components] using member
      subst element
      exact Nat.one_pos
    all_goals cases member

theorem nestedOptionPool_everywhere (u32 : property .u32) (bool : property .bool)
    (inner : property (.enum 0)) (outer : property (.enum 1)) (struct : property (.struct 0)) :
    nestedOptionPool.Everywhere property (.struct 0) := by
  have boolAll : nestedOptionPool.Everywhere property .bool :=
    LayoutPool.everywhere_of_isLeaf rfl bool
  have u32All : nestedOptionPool.Everywhere property .u32 := LayoutPool.everywhere_of_isLeaf rfl u32
  have innerAll : nestedOptionPool.Everywhere property (.enum 0) := by
    refine LayoutPool.everywhere_iff.mpr ⟨inner, ?_⟩
    intro part member
    rw [List.mem_singleton.mp (show part ∈ [Ty.bool] from member)]
    exact boolAll
  have outerAll : nestedOptionPool.Everywhere property (.enum 1) := by
    refine LayoutPool.everywhere_iff.mpr ⟨outer, ?_⟩
    intro part member
    rw [List.mem_singleton.mp (show part ∈ [Ty.enum 0] from member)]
    exact innerAll
  refine LayoutPool.everywhere_iff.mpr ⟨struct, ?_⟩
  intro part member
  rcases List.mem_cons.mp (show part ∈ [Ty.u32, Ty.enum 1] from member) with rfl | member
  · exact u32All
  · rw [List.mem_singleton.mp member]
    exact outerAll

theorem layoutOf_nestedOption_inner (words : Words) : layoutOf words nestedOptionPool (.enum 0) =
      { size := 1, align := 1, niches := [⟨0, 1, 3, 255⟩], discriminant := some (.niche 0 1 0 1 2) } := by
  have variants : variantLayouts words nestedOptionPool (nestedOptionPool.enumDef 0) =
      [[], [layoutOf words nestedOptionPool .bool]] := rfl
  have bool : layoutOf words nestedOptionPool .bool = .bool := layoutOf_isLeaf words _ rfl
  rw [layoutOf_enum, variants, bool]
  rfl

theorem layoutOf_nestedOption_outer (words : Words) : layoutOf words nestedOptionPool (.enum 1) =
      { size := 1, align := 1, niches := [⟨0, 1, 4, 255⟩], discriminant := some (.niche 0 1 0 1 3) } := by
  have variants : variantLayouts words nestedOptionPool (nestedOptionPool.enumDef 1) =
      [[], [layoutOf words nestedOptionPool (.enum 0)]] := rfl
  rw [layoutOf_enum, variants, layoutOf_nestedOption_inner]
  rfl

theorem layoutOf_nestedOption_struct : layoutOf .exact nestedOptionPool (.struct 0) =
      { size := 8, align := 4, niches := [⟨4, 1, 4, 255⟩] } := by
  have fields : (nestedOptionPool.structDef 0).fieldTypes.map (layoutOf .exact nestedOptionPool) =
      [layoutOf .exact nestedOptionPool .u32, layoutOf .exact nestedOptionPool (.enum 1)] := rfl
  have u32 : layoutOf .exact nestedOptionPool .u32 = .scalar 4 4 := layoutOf_isLeaf .exact _ rfl
  rw [layoutOf_struct, fields, u32, layoutOf_nestedOption_outer]
  decide

theorem nestedOption_fits : Fits nestedOptionPool (.struct 0) := by
  have u32 : layoutOf .exact nestedOptionPool .u32 = .scalar 4 4 := layoutOf_isLeaf .exact _ rfl
  have bool : layoutOf .exact nestedOptionPool .bool = .bool := layoutOf_isLeaf .exact _ rfl
  apply nestedOptionPool_everywhere
  all_goals simp [layoutOf_nestedOption_inner, layoutOf_nestedOption_outer,
    layoutOf_nestedOption_struct, u32, bool, Layout.scalar, Layout.bool]

theorem nestedOption_nicheOffsetsFit : NicheOffsetsFit nestedOptionPool (.struct 0) := by
  have u32 : layoutOf .exact nestedOptionPool .u32 = .scalar 4 4 := layoutOf_isLeaf .exact _ rfl
  have bool : layoutOf .exact nestedOptionPool .bool = .bool := layoutOf_isLeaf .exact _ rfl
  apply nestedOptionPool_everywhere
  all_goals simp [layoutOf_nestedOption_inner, layoutOf_nestedOption_outer,
    layoutOf_nestedOption_struct, u32, bool, Layout.scalar, Layout.bool]

theorem niches_sound_nestedOption : Fits nestedOptionPool (.struct 0) ∧ NicheOffsetsFit nestedOptionPool (.struct 0) ∧
      NichesSound nestedOptionPool (.struct 0) ∧
      UnitVariantDistinct nestedOptionPool (.struct 0) :=
  ⟨nestedOption_fits, nestedOption_nicheOffsetsFit, niches_sound nestedOption_fits nestedOption_nicheOffsetsFit⟩

def widePool : LayoutPool where
  structDef _ := { name := "S", fields := [⟨"a", .array 0⟩, ⟨"b", .bool⟩] }
  enumDef _ := { name := "E", variants := [] }
  arrayDef _ := (.u8, 2 ^ 32)
  rank
    | .struct _ => 2
    | .array _ => 1
    | _ => 0
  rank_lt := by
    intro ty part member
    rcases ty
    case struct =>
      simp only [TypeInternPool.components, StructDef.fieldTypes, List.map_cons, List.map_nil,
        List.mem_cons, List.not_mem_nil, or_false] at member
      rcases member with rfl | rfl
      · exact Nat.lt_succ_self 1
      · exact Nat.succ_pos 1
    case array =>
      have element : part = .u8 := by simpa [TypeInternPool.components] using member
      subst element
      exact Nat.one_pos
    all_goals cases member

theorem layoutOf_wide_array : layoutOf .machine widePool (.array 0) = { size := 2 ^ 32, align := 1 } := by
  have element : layoutOf .machine widePool (widePool.arrayDef 0).1 = .scalar 1 1 :=
    layoutOf_isLeaf .machine widePool rfl
  rw [layoutOf_array, element]
  decide

theorem wide_fields : (widePool.structDef 0).fieldTypes.map (layoutOf .machine widePool) =
    [{ size := 2 ^ 32, align := 1 }, .bool] := by
  have fields : (widePool.structDef 0).fieldTypes.map (layoutOf .machine widePool) =
      [layoutOf .machine widePool (.array 0), layoutOf .machine widePool .bool] := rfl
  have bool : layoutOf .machine widePool .bool = .bool := layoutOf_isLeaf .machine widePool rfl
  rw [fields, layoutOf_wide_array, bool]

theorem layoutOf_wide_niches : (layoutOf .machine widePool (.struct 0)).niches = [⟨0, 1, 2, 255⟩] := by
  rw [layoutOf_struct, wide_fields]
  decide

theorem wide_fieldOffsets : fieldOffsets .machine widePool 0 = [some 0, some (2 ^ 32)] := by
  unfold fieldOffsets
  rw [wide_fields]
  decide

/-- The array filled with fives, followed by `false`. -/
def wideMemory : Memory := fun address => if address < 2 ^ 32 then 5 else 0

def wideDatum : Datum :=
  .record [.record (List.replicate (2 ^ 32) (.scalar 5)), .scalar 0]

theorem encodes_wide_array :
    Encodes widePool wideMemory (.array 0) (.record (List.replicate (2 ^ 32) (.scalar 5))) 0 := by
  apply Encodes.array
  · exact List.length_replicate
  · intro index _ found
    obtain ⟨bound, element⟩ := List.getElem?_eq_some_iff.mp found
    rw [List.getElem_replicate] at element
    rw [List.length_replicate] at bound
    subst element
    apply Encodes.leaf rfl (show ValidBits .u8 5 from trivial)
    have byte : layoutOf .machine widePool .u8 = .scalar 1 1 := layoutOf_isLeaf .machine widePool rfl
    have element : layoutOf .machine widePool (widePool.arrayDef 0).1 = .scalar 1 1 := byte
    rw [element, byte]
    have low : index < 4294967296 := bound
    simp [Layout.scalar, readLe, wideMemory, low]

theorem encodes_wide : Encodes widePool wideMemory (.struct 0) wideDatum 0 := by
  apply Encodes.struct
  · rfl
  · intro index _ _ _ atIndex found placed
    rw [wide_fieldOffsets] at placed
    match index with
    | 0 =>
      cases atIndex
      cases found
      cases placed
      exact encodes_wide_array
    | 1 =>
      cases atIndex
      cases found
      cases placed
      apply Encodes.leaf rfl
      · exact Nat.zero_le 1
      · rw [layoutOf_isLeaf .machine widePool rfl]
        simp [scalarLayout, Layout.bool, readLe, wideMemory]
    | index + 2 => cases found

theorem not_nichesSound_wide : ¬ NichesSound widePool (.struct 0) := by
  intro sound
  have member : ⟨0, 1, 2, 255⟩ ∈ (layoutOf .machine widePool (.struct 0)).niches := by
    simp [layoutOf_wide_niches]
  obtain ⟨-, avoids⟩ := sound _ member
  apply avoids wideMemory wideDatum 0 encodes_wide
  simp [NicheRange.Contains, readLe, wideMemory]

end Gruel
