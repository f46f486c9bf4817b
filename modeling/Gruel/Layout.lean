import Gruel.LayoutCore
import Mathlib.Logic.Relation

/-!
Facts about `layoutOf` that every user of a layout needs: alignments are powers of two,
a layout depends only on the layouts of the parts, and the compiler's word arithmetic
computes the exact layout with its offsets narrowed to 32 bits.
-/

namespace Gruel

open RecordLayout (dvd_alignUp le_alignUp)

variable {variants : List (List Layout)} {pool : LayoutPool} {ty : Ty} {definition : EnumDef}
  {property : Ty → Prop} {align : Nat}

variable {words : Words} {id : EnumId} {variant : List Layout}

theorem LayoutPool.induction (pool : LayoutPool) {motive : Ty → Prop}
    (step : ∀ ty, (∀ part ∈ pool.components ty, motive part) → motive ty) (ty : Ty) : motive ty := by
  generalize bound : pool.rank ty = rank
  induction rank using Nat.strongRecOn generalizing ty with
  | ind rank ih =>
    apply step
    intro part member
    have smaller := pool.rank_lt ty part member
    exact ih (pool.rank part) (bound ▸ smaller) part rfl

def LayoutPool.Everywhere (pool : LayoutPool) (property : Ty → Prop) (ty : Ty) : Prop :=
  ∀ part, Relation.ReflTransGen (fun whole part => part ∈ pool.components whole) ty part → property part

theorem LayoutPool.everywhere_iff : pool.Everywhere property ty ↔
      property ty ∧ ∀ part ∈ pool.components ty, pool.Everywhere property part := by
  constructor
  · intro all
    refine ⟨all ty .refl, ?_⟩
    intro part member inner path
    exact all inner (.head member path)
  · rintro ⟨here, below⟩ part path
    rcases Relation.ReflTransGen.cases_head path with rfl | ⟨middle, member, rest⟩
    · exact here
    · exact below middle member part rest

theorem LayoutPool.Everywhere.here (all : pool.Everywhere property ty) : property ty :=
  (LayoutPool.everywhere_iff.1 all).1

theorem LayoutPool.Everywhere.component {part : Ty} (all : pool.Everywhere property ty)
    (member : part ∈ pool.components ty) : pool.Everywhere property part :=
  (LayoutPool.everywhere_iff.1 all).2 part member

def IsAlign (align : Nat) : Prop := align = 1 ∨ align = 2 ∨ align = 4 ∨ align = 8

theorem IsAlign.pos (isAlign : IsAlign align) : 0 < align := by
  unfold IsAlign at isAlign
  omega

theorem IsAlign.dvd {small large : Nat} (smallAlign : IsAlign small) (largeAlign : IsAlign large)
    (le : small ≤ large) : small ∣ large := by
  rcases smallAlign with rfl | rfl | rfl | rfl <;> rcases largeAlign with rfl | rfl | rfl | rfl <;> omega

theorem IsAlign.dvd_word (isAlign : IsAlign align) : align ∣ 2 ^ 64 := by
  rcases isAlign with rfl | rfl | rfl | rfl <;> decide

theorem IsAlign.max {first second : Nat} (firstAlign : IsAlign first)
    (secondAlign : IsAlign second) : IsAlign (max first second) := by
  rcases Nat.le_total first second with le | le
  · rw [Nat.max_eq_right le]
    exact secondAlign
  · rw [Nat.max_eq_left le]
    exact firstAlign

theorem isAlign_foldr_max {aligns : List Nat} (all : ∀ align ∈ aligns, IsAlign align) :
    IsAlign (aligns.foldr max 1) := by
  induction aligns with
  | nil => exact .inl rfl
  | cons align rest ih =>
    apply IsAlign.max (all align (List.mem_cons_self ..))
    exact ih fun other member => all other (List.mem_cons_of_mem align member)

theorem isAlign_scalarLayout (ty : Ty) : IsAlign (scalarLayout ty).align := by
  cases ty <;> simp [scalarLayout, Layout.scalar, Layout.zeroSized, Layout.bool, Layout.char, IsAlign]

theorem discriminantType_cases (definition : EnumDef) : definition.discriminantType = .cInt ∨
      definition.variants = [] ∧ definition.discriminantType = .never ∨
      definition.variants ≠ [] ∧ (definition.discriminantType = .u8 ∨
        definition.discriminantType = .u16 ∨ definition.discriminantType = .u32 ∨
        definition.discriminantType = .u64) := by
  unfold EnumDef.discriminantType
  by_cases isC : definition.isCLayout = true
  · left
    rw [if_pos isC]
  · right
    rw [if_neg isC]
    by_cases empty : definition.variants.length = 0
    · left
      exact ⟨List.length_eq_zero_iff.mp empty, if_pos empty⟩
    · right
      refine ⟨fun nil => empty (by simp [nil]), ?_⟩
      simp only [empty, if_false]
      split
      · simp
      · split
        · simp
        · split <;> simp

theorem isAlign_discriminantLayout (definition : EnumDef) : IsAlign (discriminantLayout definition).align :=
  isAlign_scalarLayout _

theorem discriminantLayout_cases (definition : EnumDef) :
    definition.variants = [] ∧ discriminantLayout definition = .zeroSized ∨
      ∃ width, IsAlign width ∧ discriminantLayout definition = .scalar width width := by
  unfold discriminantLayout
  rcases discriminantType_cases definition with ty | ⟨empty, ty⟩ | ⟨-, ty | ty | ty | ty⟩
  · exact .inr ⟨4, by simp [IsAlign], by rw [ty]; rfl⟩
  · exact .inl ⟨empty, by rw [ty]; rfl⟩
  · exact .inr ⟨1, by simp [IsAlign], by rw [ty]; rfl⟩
  · exact .inr ⟨2, by simp [IsAlign], by rw [ty]; rfl⟩
  · exact .inr ⟨4, by simp [IsAlign], by rw [ty]; rfl⟩
  · exact .inr ⟨8, by simp [IsAlign], by rw [ty]; rfl⟩

theorem discriminantLayout_size_le (definition : EnumDef) : (discriminantLayout definition).size ≤ 8 := by
  rcases discriminantLayout_cases definition with ⟨-, layout⟩ | ⟨_, isAlign, layout⟩
  · simp [layout, Layout.zeroSized]
  · simp only [layout, Layout.scalar]
    unfold IsAlign at isAlign
    omega

theorem discriminantLayout_of_isCLayout (isC : definition.isCLayout = true) :
    discriminantLayout definition = .scalar 4 4 := by
  simp [discriminantLayout, EnumDef.discriminantType, isC, scalarLayout]

theorem isAlign_scan (words : Words) (fields : List Layout) (scan : StructScan)
    (aligned : ∀ field ∈ fields, IsAlign field.align) (start : IsAlign scan.maxAlign) :
    IsAlign (fields.foldl (StructScan.addField words) scan).maxAlign := by
  induction fields generalizing scan with
  | nil => exact start
  | cons field rest ih =>
    apply ih
    · exact fun other member => aligned other (List.mem_cons_of_mem field member)
    · unfold StructScan.addField
      split
      · exact start
      · exact start.max (aligned field (List.mem_cons_self ..))

theorem tryNicheEncodedEnumLayout_cases {layout : Layout}
    (encoded : tryNicheEncodedEnumLayout variants = some layout) :
    ∃ payload niche rest unitVariant dataVariant, (variants = [[], [payload]] ∧ unitVariant = 0 ∧ dataVariant = 1 ∨
        variants = [[payload], []] ∧ unitVariant = 1 ∧ dataVariant = 0) ∧
      payload.niches = niche :: rest ∧
      layout =
        { size := payload.size
          align := payload.align
          niches :=
            if niche.start + 1 ≤ niche.stop then [{ niche with start := niche.start + 1 }] else []
          discriminant := some (.niche unitVariant dataVariant niche.offset niche.width niche.start) } := by
  unfold tryNicheEncodedEnumLayout at encoded
  split at encoded
  · rename_i payload
    unfold nicheEncoded at encoded
    split at encoded
    · cases encoded
    · rename_i niche rest found
      cases encoded
      exact ⟨payload, niche, rest, 0, 1, .inl ⟨rfl, rfl, rfl⟩, found, rfl⟩
  · rename_i payload
    unfold nicheEncoded at encoded
    split at encoded
    · cases encoded
    · rename_i niche rest found
      cases encoded
      exact ⟨payload, niche, rest, 1, 0, .inr ⟨rfl, rfl, rfl⟩, found, rfl⟩
  · cases encoded

theorem isAlign_maxVariantAlign (aligned : ∀ variant ∈ variants, ∀ field ∈ variant, IsAlign field.align) :
    IsAlign (maxVariantAlign variants) := by
  apply isAlign_foldr_max
  intro align member
  obtain ⟨field, inFlatten, rfl⟩ := List.mem_map.mp member
  obtain ⟨variant, inVariants, inVariant⟩ := List.mem_flatten.mp inFlatten
  exact aligned variant inVariants field inVariant

theorem isAlign_enumLayout (words : Words) (definition : EnumDef)
    (aligned : ∀ variant ∈ variants, ∀ field ∈ variant, IsAlign field.align) :
    IsAlign (enumLayout words definition variants).align := by
  unfold enumLayout
  split
  · rename_i layout encoded
    obtain ⟨payload, _, _, _, _, shape, -, rfl⟩ :=
      tryNicheEncodedEnumLayout_cases encoded
    rcases shape with ⟨rfl, -, -⟩ | ⟨rfl, -, -⟩
    · exact aligned [payload] (by simp) payload (by simp)
    · exact aligned [payload] (by simp) payload (by simp)
  · unfold enumLayoutSeparate
    split
    · exact isAlign_discriminantLayout definition
    · split
      · exact (isAlign_discriminantLayout definition).max (isAlign_maxVariantAlign aligned)
      · exact isAlign_discriminantLayout definition

theorem mem_variantLayouts {field : Layout} (inVariants : variant ∈ variantLayouts words pool (pool.enumDef id))
    (inVariant : field ∈ variant) :
    ∃ part ∈ pool.components (.enum id), field = layoutOf words pool part := by
  obtain ⟨definition, inDefinition, rfl⟩ := List.mem_map.mp inVariants
  obtain ⟨part, inFields, rfl⟩ := List.mem_map.mp inVariant
  exact ⟨part, List.mem_flatMap.mpr ⟨definition, inDefinition, inFields⟩, rfl⟩

theorem isAlign_layoutOf (words : Words) (pool : LayoutPool) (ty : Ty) : IsAlign (layoutOf words pool ty).align := by
  induction ty using pool.induction with
  | step ty ih =>
    cases ty
    case struct id =>
      rw [layoutOf_struct]
      apply isAlign_scan words _ {} _ (.inl rfl)
      intro field member
      obtain ⟨part, inFields, rfl⟩ := List.mem_map.mp member
      exact ih part inFields
    case array id =>
      rw [layoutOf_array]
      exact ih _ (List.mem_singleton.mpr rfl)
    case enum id =>
      rw [layoutOf_enum]
      apply isAlign_enumLayout
      intro _ inVariants field inVariant
      obtain ⟨part, member, rfl⟩ := mem_variantLayouts inVariants inVariant
      exact ih part member
    all_goals
      rw [layoutOf_leaf words pool (by simp) (by simp) (by simp)]
      exact isAlign_scalarLayout _

def NicheRange.narrow (niche : NicheRange) : NicheRange :=
  { niche with offset := niche.offset % 2 ^ 32 }

def DiscriminantStrategy.narrow : DiscriminantStrategy → DiscriminantStrategy
  | .separate tagOffset tagWidth payloadOffset =>
    .separate tagOffset tagWidth (payloadOffset % 2 ^ 32)
  | .niche unitVariant dataVariant nicheOffset nicheWidth nicheValue =>
    .niche unitVariant dataVariant (nicheOffset % 2 ^ 32) nicheWidth nicheValue

def Layout.narrow (layout : Layout) : Layout :=
  { layout with
    niches := layout.niches.map NicheRange.narrow
    discriminant := layout.discriminant.map DiscriminantStrategy.narrow }

@[simp] theorem Layout.narrow_size (layout : Layout) : layout.narrow.size = layout.size := rfl

@[simp] theorem Layout.narrow_align (layout : Layout) : layout.narrow.align = layout.align := rfl

def StructScan.narrow (scan : StructScan) : StructScan :=
  { scan with niches := scan.niches.map NicheRange.narrow }

theorem alignUp_exact (value align : Nat) : alignUp .exact value align = RecordLayout.alignUp value align := rfl

theorem alignUp_machine {value : Nat} (isAlign : IsAlign align) (fits : RecordLayout.alignUp value align < 2 ^ 64) :
    alignUp .machine value align = RecordLayout.alignUp value align := by
  have noCarry := RecordLayout.add_align_le_of_alignUp_lt isAlign.pos isAlign.dvd_word fits
  have below : value + align - 1 < 2 ^ 64 := by omega
  simp only [alignUp, Words.machine_u64, Nat.mod_eq_of_lt below, RecordLayout.alignUp]

theorem scan_offset_le (fields : List Layout) (scan : StructScan) (aligned : ∀ field ∈ fields, IsAlign field.align) :
    scan.offset ≤ (fields.foldl (StructScan.addField .exact) scan).offset := by
  induction fields generalizing scan with
  | nil => exact Nat.le_refl _
  | cons field rest ih =>
    rw [List.foldl_cons]
    have later := ih (scan.addField .exact field) fun other member =>
      aligned other (List.mem_cons_of_mem field member)
    have placed := le_alignUp scan.offset field.align (aligned field (List.mem_cons_self ..)).pos
    have grows : scan.offset ≤ (scan.addField .exact field).offset := by
      unfold StructScan.addField
      split
      · exact Nat.le_refl _
      · simp only [Words.exact_u64, alignUp_exact]
        omega
    omega

theorem addField_machine (scan : StructScan) (field : Layout) (isAlign : IsAlign field.align)
    (fits : (scan.addField .exact field).offset < 2 ^ 64) :
    scan.narrow.addField .machine field.narrow = (scan.addField .exact field).narrow := by
  by_cases empty : field.size = 0
  · simp [StructScan.addField, empty]
  · simp only [StructScan.addField, empty, if_false, alignUp_exact, Words.exact_u64] at fits
    have placed : alignUp .machine scan.offset field.align = RecordLayout.alignUp scan.offset field.align := by
      apply alignUp_machine isAlign
      omega
    simp only [StructScan.addField, Layout.narrow_size, Layout.narrow_align, empty, if_false,
      StructScan.narrow, placed, alignUp_exact, StructScan.mk.injEq, true_and]
    constructor
    · exact Nat.mod_eq_of_lt fits
    · simp only [Layout.narrow, List.map_append, List.map_map]
      congr 1
      apply List.map_congr_left
      intro _ _
      simp only [Function.comp_apply, NicheRange.narrow, Words.machine_u32, Words.exact_u32,
        NicheRange.mk.injEq, and_true]
      exact (Nat.add_mod _ _ _).symm

theorem scan_machine (fields : List Layout) (scan : StructScan) (aligned : ∀ field ∈ fields, IsAlign field.align)
    (fits : (fields.foldl (StructScan.addField .exact) scan).offset < 2 ^ 64) :
    (fields.map Layout.narrow).foldl (StructScan.addField .machine) scan.narrow =
      (fields.foldl (StructScan.addField .exact) scan).narrow := by
  induction fields generalizing scan with
  | nil => rfl
  | cons field rest ih =>
    have restAligned : ∀ other ∈ rest, IsAlign other.align := fun other member =>
      aligned other (List.mem_cons_of_mem field member)
    have later := scan_offset_le rest (scan.addField .exact field) restAligned
    rw [List.foldl_cons] at fits
    rw [List.map_cons, List.foldl_cons, List.foldl_cons,
      addField_machine scan field (aligned field (List.mem_cons_self ..)) (by omega)]
    exact ih (scan.addField .exact field) restAligned fits

theorem scan_offset_le_layout_size (scan : StructScan) (isAlign : IsAlign scan.maxAlign) :
    scan.offset ≤ (scan.layout .exact).size := by
  unfold StructScan.layout
  split
  · exact le_alignUp scan.offset scan.maxAlign isAlign.pos
  · exact Nat.le_refl _

theorem structLayout_machine {fields : List Layout} (aligned : ∀ field ∈ fields, IsAlign field.align)
    (fits : (structLayout .exact fields).size < 2 ^ 64) :
    structLayout .machine (fields.map Layout.narrow) = (structLayout .exact fields).narrow := by
  have isAlign := isAlign_scan .exact fields {} aligned (.inl rfl)
  have offsetLe := scan_offset_le_layout_size _ isAlign
  unfold structLayout at fits
  have scanned : (fields.map Layout.narrow).foldl (StructScan.addField .machine) {} =
      (fields.foldl (StructScan.addField .exact) {}).narrow :=
    scan_machine fields {} aligned (by omega)
  unfold structLayout
  rw [scanned]
  generalize fields.foldl (StructScan.addField .exact) {} = scan at isAlign fits
  by_cases rounded : 1 < scan.maxAlign
  · simp only [StructScan.layout, rounded, if_true, alignUp_exact] at fits
    simp [StructScan.layout, StructScan.narrow, rounded, alignUp_exact, Layout.narrow, alignUp_machine isAlign fits]
  · simp [StructScan.layout, StructScan.narrow, rounded, Layout.narrow]

theorem payloadSize_le_maxPayload (member : variant ∈ variants) :
    payloadSize words variant ≤ maxPayload words variants := by
  induction variants with
  | nil => cases member
  | cons head rest ih =>
    rcases List.mem_cons.mp member with rfl | inRest
    · exact Nat.le_max_left _ _
    · exact Nat.le_trans (ih inRest) (Nat.le_max_right _ _)

theorem payloadSize_narrow (words : Words) (variant : List Layout) :
    payloadSize words (variant.map Layout.narrow) = payloadSize words variant := by
  simp [payloadSize, Function.comp_def]

theorem maxPayload_machine (fits : maxPayload .exact variants < 2 ^ 64) :
    maxPayload .machine (variants.map (List.map Layout.narrow)) = maxPayload .exact variants := by
  unfold maxPayload
  rw [List.map_map]
  congr 1
  apply List.map_congr_left
  intro variant member
  have bounded : payloadSize .exact variant ≤ maxPayload .exact variants :=
    payloadSize_le_maxPayload member
  rw [Function.comp_apply, payloadSize_narrow]
  exact Nat.mod_eq_of_lt (Nat.lt_of_le_of_lt bounded fits)

theorem maxVariantAlign_narrow (variants : List (List Layout)) :
    maxVariantAlign (variants.map (List.map Layout.narrow)) = maxVariantAlign variants := by
  unfold maxVariantAlign
  rw [← List.map_flatten, List.map_map]
  rfl

theorem tagWidth_machine (definition : EnumDef) :
    Words.machine.u8 (discriminantLayout definition).size = (discriminantLayout definition).size := by
  have small := discriminantLayout_size_le definition
  exact Nat.mod_eq_of_lt (by omega)

theorem unitOnlyEnumLayout_machine (definition : EnumDef) :
    unitOnlyEnumLayout .machine definition = (unitOnlyEnumLayout .exact definition).narrow := by
  simp only [unitOnlyEnumLayout, tagWidth_machine, Layout.narrow, Option.map_some, DiscriminantStrategy.narrow]
  simp only [Words.exact_u8, Words.exact_u32, Words.machine_u32, Layout.mk.injEq, true_and, and_true]
  unfold unitOnlyEnumNiches
  simp only
  split
  · simp [NicheRange.narrow]
  · rfl

theorem cEnumLayout_machine (aligned : ∀ variant ∈ variants, ∀ field ∈ variant, IsAlign field.align)
    (fits : (cEnumLayout .exact definition variants).size < 2 ^ 64) :
    cEnumLayout .machine definition (variants.map (List.map Layout.narrow)) =
      (cEnumLayout .exact definition variants).narrow := by
  have isAlign : IsAlign (max (discriminantLayout definition).align (maxVariantAlign variants)) :=
    (isAlign_discriminantLayout definition).max (isAlign_maxVariantAlign aligned)
  simp only [cEnumLayout, alignUp_exact, Words.exact_u64] at fits
  simp only [cEnumLayout, maxVariantAlign_narrow, tagWidth_machine, alignUp_exact, Layout.narrow,
    Option.map_some, DiscriminantStrategy.narrow, List.map_nil]
  generalize max (discriminantLayout definition).align (maxVariantAlign variants) = enumAlign at isAlign fits
  have payloadPlaced := le_alignUp (maxPayload .exact variants) enumAlign isAlign.pos
  have totalPlaced := le_alignUp (RecordLayout.alignUp (discriminantLayout definition).size enumAlign +
    RecordLayout.alignUp (maxPayload .exact variants) enumAlign) enumAlign isAlign.pos
  have payloadEq : maxPayload .machine (variants.map (List.map Layout.narrow)) =
      maxPayload .exact variants := maxPayload_machine (by omega)
  have tagFits : RecordLayout.alignUp (discriminantLayout definition).size enumAlign < 2 ^ 64 := by
    omega
  have payloadFits : RecordLayout.alignUp (maxPayload .exact variants) enumAlign < 2 ^ 64 := by
    omega
  rw [payloadEq, alignUp_machine isAlign tagFits, alignUp_machine isAlign payloadFits]
  have sumFits : Words.machine.u64 (RecordLayout.alignUp (discriminantLayout definition).size enumAlign +
        RecordLayout.alignUp (maxPayload .exact variants) enumAlign) =
      RecordLayout.alignUp (discriminantLayout definition).size enumAlign +
        RecordLayout.alignUp (maxPayload .exact variants) enumAlign :=
    Nat.mod_eq_of_lt (by omega)
  rw [sumFits, alignUp_machine isAlign fits]
  simp [Words.machine_u32]

theorem dataEnumLayout_machine (fits : (dataEnumLayout .exact definition variants).size < 2 ^ 64) :
    dataEnumLayout .machine definition (variants.map (List.map Layout.narrow)) =
      (dataEnumLayout .exact definition variants).narrow := by
  have isAlign := isAlign_discriminantLayout definition
  have placed := le_alignUp ((discriminantLayout definition).size + maxPayload .exact variants)
    (discriminantLayout definition).align isAlign.pos
  by_cases empty : maxPayload .exact variants = 0
  · have payloadEq : maxPayload .machine (variants.map (List.map Layout.narrow)) =
        maxPayload .exact variants := maxPayload_machine (by omega)
    simp [dataEnumLayout, payloadEq, empty, tagWidth_machine, Layout.narrow,
      DiscriminantStrategy.narrow, Words.machine_u32]
  · simp only [dataEnumLayout, empty, if_false, alignUp_exact, Words.exact_u64] at fits
    have payloadEq : maxPayload .machine (variants.map (List.map Layout.narrow)) =
        maxPayload .exact variants := maxPayload_machine (by omega)
    have sumFits : Words.machine.u64 ((discriminantLayout definition).size + maxPayload .exact variants) =
        (discriminantLayout definition).size + maxPayload .exact variants :=
      Nat.mod_eq_of_lt (by omega)
    simp only [dataEnumLayout, payloadEq, empty, if_false, tagWidth_machine, sumFits, Layout.narrow,
      alignUp_machine isAlign fits, alignUp_exact, Option.map_some, DiscriminantStrategy.narrow,
      List.map_nil]
    simp [Words.machine_u32]

theorem nicheEncoded_narrow (unitVariant dataVariant : Nat) (payload : Layout) :
    nicheEncoded unitVariant dataVariant payload.narrow =
      (nicheEncoded unitVariant dataVariant payload).map Layout.narrow := by
  unfold nicheEncoded
  cases found : payload.niches with
  | nil => simp [Layout.narrow, found]
  | cons niche rest =>
    simp only [Layout.narrow, found, List.map_cons, Option.map_some, DiscriminantStrategy.narrow, NicheRange.narrow]
    split <;> rfl

theorem tryNicheEncodedEnumLayout_narrow (variants : List (List Layout)) :
    tryNicheEncodedEnumLayout (variants.map (List.map Layout.narrow)) =
      (tryNicheEncodedEnumLayout variants).map Layout.narrow := by
  unfold tryNicheEncodedEnumLayout
  split
  · rename_i payload shape
    rcases variants with _ | ⟨_ | ⟨a, _⟩, _ | ⟨_ | ⟨b, _ | ⟨c, cs⟩⟩, _ | ⟨d, ds⟩⟩⟩ <;> simp at shape
    subst shape
    exact nicheEncoded_narrow 0 1 b
  · rename_i payload shape
    rcases variants with _ | ⟨_ | ⟨a, _ | ⟨b, _⟩⟩, _ | ⟨_ | ⟨c, cs⟩, _ | ⟨d, ds⟩⟩⟩ <;> simp at shape
    subst shape
    exact nicheEncoded_narrow 1 0 a
  · rename_i notLeft notRight
    split
    · exact absurd rfl (notLeft _)
    · exact absurd rfl (notRight _)
    · rfl

theorem enumLayout_machine (aligned : ∀ variant ∈ variants, ∀ field ∈ variant, IsAlign field.align)
    (fits : (enumLayout .exact definition variants).size < 2 ^ 64) :
    enumLayout .machine definition (variants.map (List.map Layout.narrow)) =
      (enumLayout .exact definition variants).narrow := by
  unfold enumLayout at fits ⊢
  rw [tryNicheEncodedEnumLayout_narrow]
  cases encoded : tryNicheEncodedEnumLayout variants with
  | some layout => rfl
  | none =>
    simp only [encoded] at fits
    unfold enumLayoutSeparate at fits ⊢
    split at fits
    · rename_i unitOnly
      simp only [unitOnly, if_true]
      exact unitOnlyEnumLayout_machine definition
    · rename_i unitOnly
      split at fits
      · rename_i isC
        simp only [unitOnly, isC, if_true]
        exact cEnumLayout_machine aligned fits
      · rename_i isC
        simp only [unitOnly, isC]
        exact dataEnumLayout_machine fits

/-- Every part of the type has an exact size that a `u64` can hold. -/
def Fits (pool : LayoutPool) (ty : Ty) : Prop :=
  pool.Everywhere (fun part => (layoutOf .exact pool part).size < 2 ^ 64) ty

theorem scalarLayout_narrow (ty : Ty) : (scalarLayout ty).narrow = scalarLayout ty := by
  cases ty <;> rfl

theorem layoutOf_machine (fits : Fits pool ty) : layoutOf .machine pool ty = (layoutOf .exact pool ty).narrow := by
  induction ty using pool.induction with
  | step ty ih =>
    have partsEq : ∀ part ∈ pool.components ty, layoutOf .machine pool part = (layoutOf .exact pool part).narrow :=
      fun part member => ih part member (fits.component member)
    have here := fits.here
    cases ty
    case struct id =>
      rw [layoutOf_struct] at here
      rw [layoutOf_struct, layoutOf_struct, ← structLayout_machine _ here, List.map_map]
      · congr 1
        exact List.map_congr_left partsEq
      · intro field member
        obtain ⟨part, _, rfl⟩ := List.mem_map.mp member
        exact isAlign_layoutOf .exact pool part
    case array id =>
      rw [layoutOf_array] at here
      rw [layoutOf_array, layoutOf_array, partsEq _ (List.mem_singleton.mpr rfl)]
      simp only [arrayLayout, Words.exact_u64] at here
      simp only [arrayLayout, Layout.narrow, Layout.narrow_size, Layout.narrow_align,
        Words.machine_u64, Words.exact_u64, Nat.mod_eq_of_lt here, List.map_nil, Option.map_none]
    case enum id =>
      rw [layoutOf_enum] at here
      rw [layoutOf_enum, layoutOf_enum, ← enumLayout_machine _ here]
      · congr 1
        simp only [variantLayouts, List.map_map]
        apply List.map_congr_left
        intro variant inEnum
        simp only [Function.comp_apply, List.map_map]
        apply List.map_congr_left
        intro part inVariant
        exact partsEq part (List.mem_flatMap.mpr ⟨variant, inEnum, inVariant⟩)
      · intro variant inVariants field inVariant
        obtain ⟨part, member, rfl⟩ := mem_variantLayouts inVariants inVariant
        exact isAlign_layoutOf .exact pool part
    all_goals
      rw [layoutOf_leaf .machine pool (by simp) (by simp) (by simp),
        layoutOf_leaf .exact pool (by simp) (by simp) (by simp), scalarLayout_narrow]

theorem variantLayouts_machine (fits : Fits pool (.enum id)) : variantLayouts .machine pool (pool.enumDef id) =
      (variantLayouts .exact pool (pool.enumDef id)).map (List.map Layout.narrow) := by
  simp only [variantLayouts, List.map_map]
  apply List.map_congr_left
  intro variant inEnum
  simp only [Function.comp_apply, List.map_map]
  apply List.map_congr_left
  intro _ inVariant
  exact layoutOf_machine (fits.component (List.mem_flatMap.mpr ⟨variant, inEnum, inVariant⟩))

end Gruel
