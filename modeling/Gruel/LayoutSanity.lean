import Gruel.Encoding

/-!
When the layout of a type is sane: alignments are powers of two that divide the size, the
fields of a struct are aligned, inside it and apart, and the word arithmetic of the
computation gives the same numbers as unbounded arithmetic.
-/

namespace Gruel

open RecordLayout (le_alignUp dvd_alignUp alignUp_le_of_dvd)

variable {pool : LayoutPool} {fields : List Layout} {offset index : Nat} {ty : Ty} {scan : StructScan} {id : StructId}

/-- The struct keeps a field of type `ty`, declared at `index`, at byte `offset`; a zero-sized
field has no bytes and no offset. -/
def PlacedAt (pool : LayoutPool) (id : StructId) (index : Nat) (ty : Ty) (offset : Nat) : Prop :=
  (pool.structDef id).fieldTypes[index]? = some ty ∧ (fieldOffsets .machine pool id)[index]? = some (some offset)

structure FieldsPlaced (pool : LayoutPool) (id : StructId) : Prop where
  aligned : ∀ index ty offset, PlacedAt pool id index ty offset → (layoutOf .machine pool ty).align ∣ offset
  inside : ∀ index ty offset, PlacedAt pool id index ty offset →
    offset + (layoutOf .machine pool ty).size ≤ (layoutOf .machine pool (.struct id)).size
  disjoint : ∀ first second ty other offset otherOffset, first ≠ second →
    PlacedAt pool id first ty offset → PlacedAt pool id second other otherOffset →
    offset + (layoutOf .machine pool ty).size ≤ otherOffset ∨
      otherOffset + (layoutOf .machine pool other).size ≤ offset

structure SaneLayout (pool : LayoutPool) (ty : Ty) : Prop where
  align : ∃ power, (layoutOf .machine pool ty).align = 2 ^ power
  size : (layoutOf .machine pool ty).align ∣ (layoutOf .machine pool ty).size
  fields : ∀ id, ty = .struct id → FieldsPlaced pool id
  lossless : layoutOf .machine pool ty = layoutOf .exact pool ty
  losslessOffsets : ∀ id, ty = .struct id → fieldOffsets .machine pool id = fieldOffsets .exact pool id

theorem IsAlign.power {align : Nat} (isAlign : IsAlign align) : ∃ power, align = 2 ^ power := by
  rcases isAlign with rfl | rfl | rfl | rfl
  · exact ⟨0, rfl⟩
  · exact ⟨1, rfl⟩
  · exact ⟨2, rfl⟩
  · exact ⟨3, rfl⟩

theorem dvd_machine_alignUp (value align : Nat) : align ∣ alignUp .machine value align :=
  Nat.dvd_mul_left _ _

theorem align_dvd_scalarLayout (ty : Ty) : (scalarLayout ty).align ∣ (scalarLayout ty).size := by
  cases ty <;> simp [scalarLayout, Layout.scalar, Layout.zeroSized, Layout.bool, Layout.char]

theorem align_dvd_structLayout (aligned : ∀ field ∈ fields, IsAlign field.align) :
    (structLayout .machine fields).align ∣ (structLayout .machine fields).size := by
  have isAlign := isAlign_scan .machine fields {} aligned (.inl rfl)
  unfold structLayout StructScan.layout
  split
  · exact dvd_machine_alignUp _ _
  · have positive := isAlign.pos
    have one : (fields.foldl (StructScan.addField .machine) {}).maxAlign = 1 := by omega
    rw [one]
    exact Nat.one_dvd _

theorem align_dvd_enumLayoutSeparate (definition : EnumDef) (variants : List (List Layout)) :
    (enumLayoutSeparate .machine definition variants).align ∣
      (enumLayoutSeparate .machine definition variants).size := by
  have tag : (discriminantLayout definition).align ∣ (discriminantLayout definition).size :=
    align_dvd_scalarLayout _
  unfold enumLayoutSeparate
  split
  · exact tag
  · split
    · exact dvd_machine_alignUp _ _
    · simp only [dataEnumLayout]
      split
      · exact tag
      · exact dvd_machine_alignUp _ _

theorem align_dvd_size (pool : LayoutPool) (ty : Ty) :
    (layoutOf .machine pool ty).align ∣ (layoutOf .machine pool ty).size := by
  refine layoutOf_induction (motive := fun layout => layout.align ∣ layout.size) ?_ ?_
    (fun _ _ _ _ payload => payload) align_dvd_enumLayoutSeparate align_dvd_scalarLayout ty
  · exact fun _ parts => align_dvd_structLayout fun field member => (parts field member).1
  · intro element _ isAlign divides
    simp only [arrayLayout, Words.machine_u64]
    rw [Nat.dvd_mod_iff isAlign.dvd_word]
    exact Nat.dvd_mul_right_of_dvd divides _

theorem align_dvd_fieldOffset {field : Layout} (found : fields[index]? = some field)
    (placed : (structFieldOffsets .exact scan fields)[index]? = some (some offset)) :
    field.align ∣ offset := by
  induction fields generalizing scan index with
  | nil => simp at found
  | cons head rest ih =>
    cases index with
    | zero =>
      simp only [List.getElem?_cons_zero, Option.some.injEq] at found
      subst found
      rw [← (placed_head placed).2]
      exact dvd_alignUp _ _
    | succ index =>
      exact ih found placed

theorem scan_offset_le_fieldOffset (aligned : ∀ field ∈ fields, IsAlign field.align)
    (placed : (structFieldOffsets .exact scan fields)[index]? = some (some offset)) :
    scan.offset ≤ offset := by
  induction fields generalizing scan index with
  | nil => simp [structFieldOffsets] at placed
  | cons head rest ih =>
    have isAlign := aligned head (List.mem_cons_self ..)
    have restAligned : ∀ other ∈ rest, IsAlign other.align := fun other member =>
      aligned other (List.mem_cons_of_mem head member)
    cases index with
    | zero =>
      rw [← (placed_head placed).2]
      exact le_alignUp _ _ isAlign.pos
    | succ index =>
      have later := ih restAligned placed
      have grows := scan_offset_le [head] scan (by simpa using isAlign)
      exact Nat.le_trans grows later

theorem fieldOffset_after (aligned : ∀ field ∈ fields, IsAlign field.align)
    {first second otherOffset : Nat} {field : Layout} (before : first < second)
    (found : fields[first]? = some field)
    (placed : (structFieldOffsets .exact scan fields)[first]? = some (some offset))
    (otherPlaced : (structFieldOffsets .exact scan fields)[second]? = some (some otherOffset)) :
    offset + field.size ≤ otherOffset := by
  induction fields generalizing scan first second with
  | nil => simp at found
  | cons head rest ih =>
    have restAligned : ∀ other ∈ rest, IsAlign other.align := fun other member =>
      aligned other (List.mem_cons_of_mem head member)
    obtain ⟨second, rfl⟩ : ∃ previous, second = previous + 1 := ⟨second - 1, by omega⟩
    cases first with
    | zero =>
      simp only [List.getElem?_cons_zero, Option.some.injEq] at found
      subst found
      have later := scan_offset_le_fieldOffset restAligned otherPlaced
      obtain ⟨nonempty, rfl⟩ := placed_head placed
      rw [StructScan.addField_offset .exact scan nonempty] at later
      exact later
    | succ first =>
      exact ih restAligned (by omega) found placed otherPlaced

theorem isAlign_of_mem_fields :
    ∀ field ∈ (pool.structDef id).fieldTypes.map (layoutOf .exact pool), IsAlign field.align := by
  intro field member
  obtain ⟨part, -, rfl⟩ := List.mem_map.mp member
  exact isAlign_layoutOf .exact pool part

theorem PlacedAt.exact (fits : Fits pool (.struct id)) (placed : PlacedAt pool id index ty offset) :
    ((pool.structDef id).fieldTypes.map (layoutOf .exact pool))[index]? = some (layoutOf .exact pool ty) ∧
      (structFieldOffsets .exact {} ((pool.structDef id).fieldTypes.map (layoutOf .exact pool)))[index]? =
          some (some offset) := by
  obtain ⟨found, at_offset⟩ := placed
  rw [fieldOffsets_machine fits] at at_offset
  refine ⟨?_, at_offset⟩
  rw [List.getElem?_map, found]
  rfl

theorem fieldsPlaced (fits : Fits pool (.struct id)) : FieldsPlaced pool id where
  aligned index ty offset placed := by
    obtain ⟨found, at_offset⟩ := placed.exact fits
    rw [layoutOf_machine (fits.component (List.mem_of_getElem? placed.1)), Layout.narrow_align]
    exact align_dvd_fieldOffset found at_offset
  inside index ty offset placed := by
    obtain ⟨found, at_offset⟩ := placed.exact fits
    rw [layoutOf_machine (fits.component (List.mem_of_getElem? placed.1)), layoutOf_machine fits,
      Layout.narrow_size, Layout.narrow_size, layoutOf_struct]
    exact offset_add_size_le_structLayout isAlign_of_mem_fields found at_offset
  disjoint first second ty other offset otherOffset differ placed otherPlaced := by
    obtain ⟨found, at_offset⟩ := placed.exact fits
    obtain ⟨otherFound, at_otherOffset⟩ := otherPlaced.exact fits
    rw [layoutOf_machine (fits.component (List.mem_of_getElem? placed.1)),
      layoutOf_machine (fits.component (List.mem_of_getElem? otherPlaced.1)),
      Layout.narrow_size, Layout.narrow_size]
    rcases Nat.lt_or_gt_of_ne differ with before | after
    · exact .inl (fieldOffset_after isAlign_of_mem_fields before found at_offset at_otherOffset)
    · exact .inr (fieldOffset_after isAlign_of_mem_fields after otherFound at_otherOffset at_offset)

theorem machine_u64_lt (n : Nat) : Words.machine.u64 n < 2 ^ 64 := Nat.mod_lt _ (by decide)

theorem machine_u32_lt (n : Nat) : Words.machine.u32 n < 2 ^ 32 := Nat.mod_lt _ (by decide)

theorem machine_alignUp_lt (value align : Nat) : alignUp .machine value align < 2 ^ 64 :=
  Nat.lt_of_le_of_lt (Nat.div_mul_le_self _ _) (machine_u64_lt _)

theorem scalarLayout_size_lt (ty : Ty) : (scalarLayout ty).size < 2 ^ 64 := by
  cases ty <;> simp [scalarLayout, Layout.scalar, Layout.zeroSized, Layout.bool, Layout.char]

theorem machine_scan_lt (fields : List Layout) (scan : StructScan) (start : scan.offset < 2 ^ 64) :
    (fields.foldl (StructScan.addField .machine) scan).offset < 2 ^ 64 := by
  induction fields generalizing scan with
  | nil => exact start
  | cons field rest ih =>
    apply ih
    by_cases empty : field.size = 0
    · simpa [StructScan.addField, empty] using start
    · rw [StructScan.addField_offset .machine scan empty]
      exact machine_u64_lt _

theorem machine_structLayout_size_lt (fields : List Layout) : (structLayout .machine fields).size < 2 ^ 64 := by
  have scanned := machine_scan_lt fields {} (by decide)
  unfold structLayout StructScan.layout
  split
  · exact machine_alignUp_lt _ _
  · exact scanned

theorem machine_enumLayoutSeparate_size_lt (definition : EnumDef) (variants : List (List Layout)) :
    (enumLayoutSeparate .machine definition variants).size < 2 ^ 64 := by
  have tag : (discriminantLayout definition).size < 2 ^ 64 := scalarLayout_size_lt _
  unfold enumLayoutSeparate
  split
  · exact tag
  · split
    · exact machine_alignUp_lt _ _
    · simp only [dataEnumLayout]
      split
      · exact tag
      · exact machine_alignUp_lt _ _

theorem machine_size_lt (pool : LayoutPool) (ty : Ty) : (layoutOf .machine pool ty).size < 2 ^ 64 :=
  layoutOf_induction (motive := fun layout => layout.size < 2 ^ 64) (fun fields _ => machine_structLayout_size_lt fields)
    (fun _ _ _ _ => machine_u64_lt _) (fun _ _ _ _ payload => payload) machine_enumLayoutSeparate_size_lt
    scalarLayout_size_lt ty

theorem machine_scan_niche_lt (fields : List Layout) (scan : StructScan)
    (start : ∀ niche ∈ scan.niches, niche.offset < 2 ^ 32) :
    ∀ niche ∈ (fields.foldl (StructScan.addField .machine) scan).niches, niche.offset < 2 ^ 32 := by
  induction fields generalizing scan with
  | nil => exact start
  | cons field rest ih =>
    apply ih
    intro niche member
    by_cases empty : field.size = 0
    · simp only [StructScan.addField, empty, if_true] at member
      exact start niche member
    · simp only [StructScan.addField, empty, if_false, List.mem_append, List.mem_map] at member
      rcases member with before | ⟨_, -, rfl⟩
      · exact start niche before
      · exact machine_u32_lt _

theorem scalarLayout_niche_lt (ty : Ty) : ∀ niche ∈ (scalarLayout ty).niches, niche.offset < 2 ^ 32 := by
  intro niche member
  have inside := scalar_niche_inside ty niche member
  have small : (scalarLayout ty).size ≤ 24 := by
    cases ty <;> simp [scalarLayout, Layout.scalar, Layout.zeroSized, Layout.bool, Layout.char]
  omega

theorem machine_niche_lt (pool : LayoutPool) (ty : Ty) :
    ∀ niche ∈ (layoutOf .machine pool ty).niches, niche.offset < 2 ^ 32 := by
  refine layoutOf_induction (motive := fun layout => ∀ niche ∈ layout.niches, niche.offset < 2 ^ 32)
    (fun fields _ => machine_scan_niche_lt fields {} (by simp)) ?_ ?_ ?_ scalarLayout_niche_lt ty
  · intro _ _ _ _ _ member
    cases member
  · intro _ _ _ left payload niche member
    obtain ⟨first, inPayload, -, rfl⟩ := left niche member
    exact payload first inPayload
  · intro _ _ niche member
    obtain ⟨-, _, -⟩ := mem_separate_niches member
    omega

theorem separate_narrow {definition : EnumDef} {variants : List (List Layout)}
    (aligned : ∀ variant ∈ variants, ∀ field ∈ variant, IsAlign field.align) :
    (enumLayoutSeparate .exact definition variants).discriminant.map DiscriminantStrategy.narrow =
      (enumLayoutSeparate .exact definition variants).discriminant := by
  have tag : (discriminantLayout definition).size < 2 ^ 32 := by
    have small := discriminantLayout_size_le definition
    omega
  unfold enumLayoutSeparate
  split
  · simpa [unitOnlyEnumLayout, DiscriminantStrategy.narrow] using tag
  · split
    · have isAlign := (isAlign_discriminantLayout definition).max (isAlign_maxVariantAlign aligned)
      have eight : max (discriminantLayout definition).align (maxVariantAlign variants) ∣ 8 :=
        isAlign.dvd (.inr (.inr (.inr rfl))) (by unfold IsAlign at isAlign; omega)
      have below := alignUp_le_of_dvd isAlign.pos (discriminantLayout_size_le definition) eight
      simp only [cEnumLayout, DiscriminantStrategy.narrow, alignUp_exact, Words.exact_u32,
        Option.map_some, Option.some.injEq, DiscriminantStrategy.separate.injEq, true_and]
      exact Nat.mod_eq_of_lt (by omega)
    · simpa [dataEnumLayout, DiscriminantStrategy.narrow] using tag

theorem discriminant_narrow (offsetsFit : NicheOffsetsFit pool ty) :
    (layoutOf .exact pool ty).discriminant.map DiscriminantStrategy.narrow =
      (layoutOf .exact pool ty).discriminant := by
  cases ty
  case struct id =>
    rw [layoutOf_struct]
    rfl
  case array id =>
    rw [layoutOf_array]
    rfl
  case enum id =>
    rw [layoutOf_enum]
    cases encoded : tryNicheEncodedEnumLayout (variantLayouts .exact pool (pool.enumDef id)) with
    | some layout =>
      rw [enumLayout_of_encoded encoded]
      obtain ⟨_, inEnum, _, _, _, first, _, -, -, found, rfl⟩ :=
        nicheEncoded_payload encoded
      have small := (offsetsFit.component inEnum).here first (by simp [found])
      simp only [Option.map_some, DiscriminantStrategy.narrow, Nat.mod_eq_of_lt small]
    | none =>
      rw [enumLayout_of_not_encoded encoded]
      apply separate_narrow
      intro _ inVariants _ inVariant
      obtain ⟨part, -, rfl⟩ := mem_variantLayouts inVariants inVariant
      exact isAlign_layoutOf .exact pool part
  all_goals
    rw [layoutOf_leaf .exact pool (by simp) (by simp) (by simp)]
    rfl

theorem layoutOf_lossless (fits : Fits pool ty) (offsetsFit : NicheOffsetsFit pool ty) :
    layoutOf .machine pool ty = layoutOf .exact pool ty := by
  have niches := niches_machine fits offsetsFit
  rw [layoutOf_machine fits] at niches ⊢
  simp only [Layout.narrow] at niches ⊢
  rw [niches, discriminant_narrow offsetsFit]

theorem saneLayout_of_fits (fits : Fits pool ty) (offsetsFit : NicheOffsetsFit pool ty) : SaneLayout pool ty where
  align := (isAlign_layoutOf .machine pool ty).power
  size := align_dvd_size pool ty
  fields := by
    rintro id rfl
    exact fieldsPlaced fits
  lossless := layoutOf_lossless fits offsetsFit
  losslessOffsets := by
    rintro id rfl
    exact fieldOffsets_machine fits

/-- The layouts of a type and of all its parts are sane exactly when every part has a size that
64 bits can hold and no niche lies past the first 2^32 bytes. -/
theorem layout_sane_iff (pool : LayoutPool) (ty : Ty) :
    pool.Everywhere (SaneLayout pool) ty ↔ Fits pool ty ∧ NicheOffsetsFit pool ty := by
  constructor
  · intro sane
    constructor
    · intro part path
      simp only [← (sane part path).lossless]
      exact machine_size_lt pool part
    · intro part path
      simp only [← (sane part path).lossless]
      exact machine_niche_lt pool part
  · rintro ⟨fits, offsetsFit⟩ part path
    apply saneLayout_of_fits
    · exact fun inner rest => fits inner (path.trans rest)
    · exact fun inner rest => offsetsFit inner (path.trans rest)

def hugeArrayPool : LayoutPool where
  structDef _ := { name := "S", fields := [] }
  enumDef _ := { name := "E", variants := [] }
  arrayDef _ := (.u64, 2 ^ 61)
  rank
    | .array _ => 1
    | _ => 0
  rank_lt := by
    intro ty part member
    rcases ty
    case array =>
      have element : part = .u64 := by simpa [TypeInternPool.components] using member
      subst element
      exact Nat.one_pos
    all_goals cases member

theorem layoutOf_hugeArray (words : Words) : layoutOf words hugeArrayPool (.array 0) =
    { size := words.u64 (2 ^ 64), align := 8 } := by
  have element : layoutOf words hugeArrayPool .u64 = .scalar 8 8 := layoutOf_isLeaf words _ rfl
  rw [layoutOf_array, show (hugeArrayPool.arrayDef 0).1 = Ty.u64 from rfl, element]
  rfl

/-- The compiler gives 2^61 eight-byte elements the size zero. -/
theorem hugeArray_not_sane : ¬ hugeArrayPool.Everywhere (SaneLayout hugeArrayPool) (.array 0) := by
  intro sane
  have lossless := sane.here.lossless
  rw [layoutOf_hugeArray, layoutOf_hugeArray] at lossless
  have sizes := congrArg Layout.size lossless
  simp only [Words.machine_u64, Words.exact_u64] at sizes
  omega

end Gruel
