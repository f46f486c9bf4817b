import Gruel.Layout
import Gruel.CLayoutCore

/-!
When C-layout types keep the promise of their definitions: exactly when no niche reaches the
tag of an option-shaped enum through a C-layout type.
-/

namespace Gruel

namespace CLayout

variable {definition : EnumDef} {payload : Ty}

theorem variantLayouts_eq (pool : LayoutPool) (definition : EnumDef) : variantLayouts .machine pool definition =
      (definition.variants.map EnumVariantDef.fields).map (List.map (layoutOf .machine pool)) := by
  simp [variantLayouts]

theorem tryNicheEncoded_of_payload {pool : LayoutPool} {definition : EnumDef} {payload : Ty}
    (shape : optionPayload definition = some payload) : ∃ unitVariant dataVariant,
      tryNicheEncodedEnumLayout (variantLayouts .machine pool definition) =
        nicheEncoded unitVariant dataVariant (layoutOf .machine pool payload) := by
  rw [variantLayouts_eq]
  rcases optionPayload_cases shape with fields | fields
  · rw [fields]
    exact ⟨0, 1, rfl⟩
  · rw [fields]
    exact ⟨1, 0, rfl⟩

theorem tryNicheEncoded_of_no_payload {pool : LayoutPool} (shape : optionPayload definition = none) :
    tryNicheEncodedEnumLayout (variantLayouts .machine pool definition) = none := by
  rw [variantLayouts_eq]
  unfold optionPayload at shape
  generalize definition.variants.map EnumVariantDef.fields = fields at shape
  rcases fields with _ | ⟨_ | ⟨_, _ | ⟨_, _⟩⟩, _ | ⟨_ | ⟨_, _ | ⟨_, _⟩⟩, _ | ⟨_, _⟩⟩⟩ <;>
    simp [tryNicheEncodedEnumLayout] at shape ⊢

theorem usesSeparateTag_enumLayoutSeparate (definition : EnumDef) (variants : List (List Layout)) :
    usesSeparateTag (enumLayoutSeparate .machine definition variants) = true := by
  unfold enumLayoutSeparate
  split
  · rfl
  · split <;> rfl

theorem layoutOf_enum_separate {pool : LayoutPool} {id : EnumId}
    (noNiche : ∀ payload, optionPayload (pool.enumDef id) = some payload →
      (layoutOf .machine pool payload).niches = []) :
    layoutOf .machine pool (.enum id) = enumLayoutSeparate .machine (pool.enumDef id)
      (variantLayouts .machine pool (pool.enumDef id)) := by
  rw [layoutOf_enum]
  unfold enumLayout
  have notEncoded : tryNicheEncodedEnumLayout (variantLayouts .machine pool (pool.enumDef id)) = none := by
    cases shape : optionPayload (pool.enumDef id) with
    | none => exact tryNicheEncoded_of_no_payload shape
    | some payload =>
      obtain ⟨_, _, encoded⟩ := @tryNicheEncoded_of_payload pool _ _ shape
      rw [encoded, nicheEncoded, noNiche payload shape]
  rw [notEncoded]

theorem layoutOf_enum_niche {pool : LayoutPool} {id : EnumId} {niche : NicheRange}
    {rest : List NicheRange} (shape : optionPayload (pool.enumDef id) = some payload)
    (first : (layoutOf .machine pool payload).niches = niche :: rest) :
    usesNiche (layoutOf .machine pool (.enum id)) = true ∧
      usesSeparateTag (layoutOf .machine pool (.enum id)) = false ∧
      (layoutOf .machine pool (.enum id)).niches =
        if niche.start + 1 ≤ niche.stop then [{ niche with start := niche.start + 1 }] else [] := by
  obtain ⟨_, _, encoded⟩ := @tryNicheEncoded_of_payload pool _ _ shape
  rw [nicheEncoded, first] at encoded
  rw [layoutOf_enum, enumLayout, encoded]
  exact ⟨rfl, rfl, rfl⟩

theorem isUnitOnly_of_payload (shape : optionPayload definition = some payload) : definition.isUnitOnly = false := by
  have data : ∃ fields ∈ definition.variants.map EnumVariantDef.fields, fields = [payload] := by
    rcases optionPayload_cases shape with fields | fields
    · rw [fields]
      exact ⟨[payload], by simp, rfl⟩
    · rw [fields]
      exact ⟨[payload], by simp, rfl⟩
  obtain ⟨fields, member, rfl⟩ := data
  obtain ⟨variant, inEnum, found⟩ := List.mem_map.mp member
  simp only [EnumDef.isUnitOnly, EnumDef.hasDataVariants, Bool.not_eq_false']
  exact List.any_eq_true.mpr ⟨variant, inEnum, by simp [EnumVariantDef.hasData, found]⟩

theorem niches_enumLayoutSeparate (definition : EnumDef) (variants : List (List Layout)) :
    (enumLayoutSeparate .machine definition variants).niches = if definition.isUnitOnly then
        unitOnlyEnumNiches definition.variants.length (discriminantLayout definition).size
      else [] := by
  unfold enumLayoutSeparate
  split
  · simp [unitOnlyEnumLayout, tagWidth_machine]
  · split <;> rfl

theorem findSome?_congr {α β : Type} {f g : α → Option β} {l : List α}
    (same : ∀ a ∈ l, f a = g a) : l.findSome? f = l.findSome? g := by
  induction l with
  | nil => rfl
  | cons a rest ih =>
    rw [List.findSome?_cons, List.findSome?_cons, same a (List.mem_cons_self ..),
      ih fun b member => same b (List.mem_cons_of_mem a member)]

def firstOf {α : Type} (read : NicheRange → α) (layout : Layout) : Option α :=
  layout.niches.head?.map read

def firstCount (layout : Layout) : Option Nat := firstOf count layout

def range (niche : NicheRange) : Nat × Nat × Nat := (niche.width, niche.start, niche.stop)

theorem firstCount_eq_none {layout : Layout} : firstCount layout = none ↔ layout.niches = [] := by
  simp [firstCount, firstOf]

section Structs

variable {α : Type} {read : NicheRange → α}

theorem firstOf_scan (ignoresOffset : ∀ niche offset, read { niche with offset } = read niche)
    (fields : List Layout) (scan : StructScan) :
    (fields.foldl (StructScan.addField .machine) scan).niches.head?.map read = (scan.niches.head?.map read).or
        (fields.findSome? fun field => if field.size = 0 then none else firstOf read field) := by
  induction fields generalizing scan with
  | nil => simp
  | cons field rest ih =>
    rw [List.foldl_cons, ih, List.findSome?_cons]
    by_cases empty : field.size = 0
    · simp [StructScan.addField, empty]
    · simp only [StructScan.addField, empty, if_false]
      cases inScan : scan.niches with
      | cons niche others => simp
      | nil =>
        cases inField : field.niches with
        | nil => simp [firstOf, inField]
        | cons niche others => simp [firstOf, inField, ignoresOffset]

theorem firstOf_struct (ignoresOffset : ∀ niche offset, read { niche with offset } = read niche)
    (pool : LayoutPool) (id : StructId) :
    firstOf read (layoutOf .machine pool (.struct id)) = (pool.structDef id).fieldTypes.findSome? fun field =>
        if (layoutOf .machine pool field).size = 0 then none
        else firstOf read (layoutOf .machine pool field) := by
  rw [layoutOf_struct, firstOf, structLayout, StructScan.layout, firstOf_scan ignoresOffset, List.findSome?_map]
  rfl

end Structs

variable {ty : Ty} {spare : Spare} {id : EnumId}

theorem firstCount_unitOnly (id : EnumId) (definition : EnumDef) (variants : List (List Layout)) :
    firstCount (enumLayoutSeparate .machine definition variants) =
      (unitOnlySpare id definition).map Spare.patterns := by
  rw [firstCount, firstOf, niches_enumLayoutSeparate]
  unfold unitOnlySpare unitOnlyEnumNiches
  by_cases unitOnly : definition.isUnitOnly = true
  · simp only [unitOnly, if_true, true_and, Nat.lt_succ_iff]
    split
    · simp only [List.head?_cons, Option.map_some, count, Option.some.injEq]
      omega
    · rfl
  · simp [unitOnly]

theorem firstCount_layoutOf (pool : LayoutPool) (ty : Ty) :
    firstCount (layoutOf .machine pool ty) = (spareOf pool ty).map Spare.patterns := by
  induction ty using pool.induction with
  | step ty ih =>
    cases ty
    case struct id =>
      rw [firstCount, firstOf_struct (fun _ _ => rfl), spareOf_struct, Option.map_map, List.map_findSome?]
      apply findSome?_congr
      intro field member
      have counted := ih field member
      rw [firstCount] at counted
      rw [counted]
      simp only [Function.comp_apply]
      split <;> rfl
    case array id =>
      rw [layoutOf_array, spareOf]
      · rfl
      all_goals simp
    case enum id =>
      cases shape : optionPayload (pool.enumDef id) with
      | none =>
        rw [spareOf_tagged shape, layoutOf_enum_separate (by simp [shape])]
        exact firstCount_unitOnly id _ _
      | some payload =>
        have below := ih payload (optionPayload_component shape)
        rw [spareOf_option shape]
        cases first : (layoutOf .machine pool payload).niches with
        | nil =>
          rw [firstCount_eq_none.2 first] at below
          have noSpare : spareOf pool payload = none := by simpa using below.symm
          rw [noSpare, layoutOf_enum_separate (by simp [shape, first]), firstCount, firstOf,
            niches_enumLayoutSeparate, isUnitOnly_of_payload shape]
          rfl
        | cons niche rest =>
          have counted : ∃ spare, spareOf pool payload = some spare ∧ spare.patterns = count niche := by
            simpa [firstCount, firstOf, first] using below.symm
          obtain ⟨spare, found, patterns⟩ := counted
          rw [found, firstCount, firstOf, (layoutOf_enum_niche shape first).2.2]
          simp only [Option.bind_some, Spare.consumeOne, patterns, count]
          by_cases room : niche.start + 1 ≤ niche.stop
          · have more : 1 < niche.stop - niche.start + 1 := by omega
            simp only [room, more, if_true, List.head?_cons, Option.map_some, count, Option.some.injEq]
            omega
          · have last : ¬ 1 < niche.stop - niche.start + 1 := by omega
            simp [room, last]
    all_goals
      rw [layoutOf_leaf .machine pool (by simp) (by simp) (by simp), spareOf]
      · rfl
      all_goals simp

theorem spareOf_isSome_iff {pool : LayoutPool} :
    (spareOf pool ty).isSome = true ↔ (layoutOf .machine pool ty).niches ≠ [] := by
  rw [ne_eq, ← firstCount_eq_none, firstCount_layoutOf, Option.map_eq_none_iff, Option.isSome_iff_ne_none]

theorem exists_spare {pool : LayoutPool} (niches : (layoutOf .machine pool ty).niches ≠ []) :
    ∃ spare, spareOf pool ty = some spare :=
  Option.isSome_iff_exists.mp (spareOf_isSome_iff.2 niches)

theorem spareOf_eq_none {pool : LayoutPool} : spareOf pool ty = none ↔ (layoutOf .machine pool ty).niches = [] := by
  rw [← firstCount_eq_none, firstCount_layoutOf, Option.map_eq_none_iff]

theorem niches_of_spare {pool : LayoutPool} (found : spareOf pool ty = some spare) :
    (layoutOf .machine pool ty).niches ≠ [] :=
  spareOf_isSome_iff.1 (by rw [found]; rfl)

theorem consumeOne_eq_some {rest : Spare} : spare.consumeOne id = some rest ↔ 1 < spare.patterns ∧
      { patterns := spare.patterns - 1, lenders := .enum id :: spare.lenders } = rest := by
  simp [Spare.consumeOne]

theorem lenders_of_tagged {definition : EnumDef}
    (found : unitOnlySpare id definition = some spare) : spare.lenders = [.enum id] := by
  simp only [unitOnlySpare, Option.ite_none_right_eq_some, Option.some.injEq] at found
  rw [← found.2]

theorem lenders_head {pool : LayoutPool} (found : spareOf pool ty = some spare) : ty ∈ spare.lenders := by
  cases ty
  case struct id =>
    rw [spareOf_struct] at found
    obtain ⟨inner, -, rfl⟩ := Option.map_eq_some_iff.mp found
    exact (.head _) ..
  case enum id =>
    cases shape : optionPayload (pool.enumDef id) with
    | none =>
      rw [spareOf_tagged shape] at found
      rw [lenders_of_tagged found]
      exact List.mem_singleton.mpr rfl
    | some payload =>
      rw [spareOf_option shape] at found
      obtain ⟨inner, -, consumed⟩ := Option.bind_eq_some_iff.mp found
      obtain ⟨-, rfl⟩ := consumeOne_eq_some.1 consumed
      exact (.head _) ..
  all_goals
    rw [spareOf] at found
    · cases found
      try exact List.mem_singleton.mpr rfl
    all_goals simp

theorem firstNicheOf_iff {pool : LayoutPool} {part : Ty} :
    FirstNicheOf pool ty part ↔ ∃ spare, spareOf pool ty = some spare ∧ part ∈ spare.lenders := by
  constructor
  · intro lent
    induction lent with
    | own niches =>
      obtain ⟨spare, found⟩ := exists_spare niches
      exact ⟨spare, found, lenders_head found⟩
    | @field id earlier later field part fields skipped nonempty lent ih =>
      obtain ⟨spare, found, member⟩ := ih
      refine ⟨spare.through (.struct id), ?_, List.mem_cons.mpr (.inr member)⟩
      rw [spareOf_struct, Option.map_eq_some_iff]
      refine ⟨spare, ?_, rfl⟩
      rw [List.findSome?_eq_some_iff]
      refine ⟨earlier, field, later, fields, by rw [if_neg nonempty, found], ?_⟩
      intro other before
      rcases skipped other before with empty | noNiche
      · rw [if_pos empty]
      · rw [spareOf_eq_none.2 noNiche, ite_self]
    | @payload id payload part shape niches lent ih =>
      obtain ⟨inner, foundInner, member⟩ := ih
      obtain ⟨spare, found⟩ := exists_spare niches
      refine ⟨spare, found, ?_⟩
      rw [spareOf_option shape, foundInner, Option.bind_some] at found
      obtain ⟨-, rfl⟩ := consumeOne_eq_some.1 found
      exact List.mem_cons_of_mem (.enum id) member
  · rintro ⟨spare, found, member⟩
    induction ty using pool.induction generalizing spare with
    | step ty ih =>
      have own : FirstNicheOf pool ty ty := .own (niches_of_spare found)
      cases ty
      case struct id =>
        rw [spareOf_struct] at found
        obtain ⟨inner, first, rfl⟩ := Option.map_eq_some_iff.mp found
        rcases List.mem_cons.mp member with rfl | below
        · exact own
        · obtain ⟨earlier, field, later, fields, here, before⟩ :=
            List.findSome?_eq_some_iff.mp first
          rw [Option.ite_none_left_eq_some] at here
          have inField : field ∈ (pool.structDef id).fieldTypes := by simp [fields]
          refine .field fields ?_ here.1 (ih field inField inner here.2 below)
          intro other inEarlier
          by_cases empty : (layoutOf .machine pool other).size = 0
          · exact .inl empty
          · have none := before other inEarlier
            rw [if_neg empty] at none
            exact .inr (spareOf_eq_none.1 none)
      case enum id =>
        cases shape : optionPayload (pool.enumDef id) with
        | none =>
          rw [spareOf_tagged shape] at found
          rw [lenders_of_tagged found, List.mem_singleton] at member
          rw [member]
          exact own
        | some payload =>
          have niches := niches_of_spare found
          rw [spareOf_option shape] at found
          obtain ⟨inner, foundInner, consumed⟩ := Option.bind_eq_some_iff.mp found
          obtain ⟨-, rfl⟩ := consumeOne_eq_some.1 consumed
          rcases List.mem_cons.mp member with rfl | below
          · exact own
          · exact .payload shape niches (ih payload (optionPayload_component shape) inner foundInner below)
      case bool | char =>
        rw [spareOf] at found
        cases found
        rw [List.mem_singleton.mp member]
        exact own
      all_goals
        rw [spareOf] at found
        · cases found
        all_goals simp

theorem consumes_iff {pool : LayoutPool} {part : Ty} :
    Consumes pool id part ↔ ∃ payload spare, optionPayload (pool.enumDef id) = some payload ∧
      spareOf pool payload = some spare ∧ part ∈ spare.lenders := by
  constructor
  · rintro ⟨-, payload, shape, lent⟩
    obtain ⟨spare, found, member⟩ := firstNicheOf_iff.1 lent
    exact ⟨payload, spare, shape, found, member⟩
  · rintro ⟨payload, spare, shape, found, member⟩
    refine ⟨?_, payload, shape, firstNicheOf_iff.2 ⟨spare, found, member⟩⟩
    obtain ⟨_, _, first⟩ := List.exists_cons_of_ne_nil (niches_of_spare found)
    exact (layoutOf_enum_niche shape first).1

theorem usesSeparateTag_iff {pool : LayoutPool} : usesSeparateTag (layoutOf .machine pool (.enum id)) = true ↔
      ∀ payload, optionPayload (pool.enumDef id) = some payload → spareOf pool payload = none := by
  constructor
  · intro separate payload shape
    rw [spareOf_eq_none]
    by_contra niches
    obtain ⟨_, _, first⟩ := List.exists_cons_of_ne_nil niches
    rw [(layoutOf_enum_niche shape first).2.1] at separate
    cases separate
  · intro noSpare
    rw [layoutOf_enum_separate fun payload shape => spareOf_eq_none.1 (noSpare payload shape)]
    exact usesSeparateTag_enumLayoutSeparate _ _

/-- The promise holds exactly where no tag sits in a niche, or neither the enum nor any type
that lends it the niche has C layout. -/
theorem keepsPromise_iff (pool : LayoutPool) (id : EnumId) : KeepsPromise pool id ↔
      ∀ payload spare, optionPayload (pool.enumDef id) = some payload → spareOf pool payload = some spare →
        (pool.enumDef id).isCLayout = false ∧ ∀ part ∈ spare.lenders, isCLayout pool part = false := by
  constructor
  · intro kept payload spare shape found
    refine ⟨?_, ?_⟩
    · by_contra isC
      have separate := kept.separate (by simpa using isC)
      rw [usesSeparateTag_iff.1 separate payload shape] at found
      cases found
    · intro part member
      by_contra isC
      exact kept.unconsumed part (by simpa using isC) (consumes_iff.2 ⟨payload, spare, shape, found, member⟩)
  · intro unlent
    refine ⟨?_, ?_⟩
    · intro isC
      rw [usesSeparateTag_iff]
      intro payload shape
      by_contra some
      obtain ⟨spare, found⟩ := Option.ne_none_iff_exists'.mp some
      rw [(unlent payload spare shape found).1] at isC
      cases isC
    · intro part isC consumed
      obtain ⟨payload, spare, shape, found, member⟩ := consumes_iff.1 consumed
      rw [(unlent payload spare shape found).2 part member] at isC
      cases isC

namespace CLayoutSample

/-- `@mark(c) struct Flag { on: bool }`, `@mark(c) enum MaybeOn { None, Some(bool) }` and
`Option(Flag)`. -/
def pool : LayoutPool where
  structDef _ := { name := "Flag", fields := [⟨"on", .bool⟩], isCLayout := true }
  enumDef id :=
    if id = 0 then
      { name := "MaybeOn", variants := [⟨"None", [], []⟩, ⟨"Some", [.bool], []⟩]
        isCLayout := true }
    else { name := "Option", variants := [⟨"None", [], []⟩, ⟨"Some", [.struct 0], []⟩] }
  arrayDef _ := (.bool, 0)
  rank
    | .struct _ | .array _ => 1
    | .enum _ => 2
    | _ => 0
  rank_lt ty part member := by
    cases ty
    case enum id =>
      by_cases first : id = 0 <;> simp [TypeInternPool.components, first] at member <;>
        simp [member]
    all_goals simp [TypeInternPool.components, StructDef.fieldTypes] at member <;> simp [member]

theorem niches_bool : (layoutOf .machine pool .bool).niches =
    [{ offset := 0, width := 1, start := 2, stop := 255 }] := by
  rw [layoutOf_leaf .machine pool (by simp) (by simp) (by simp)]
  rfl

theorem niches_flag : (layoutOf .machine pool (.struct 0)).niches =
    [{ offset := 0, width := 1, start := 2, stop := 255 }] := by
  rw [layoutOf_struct]
  simp only [pool, StructDef.fieldTypes, List.map_cons, List.map_nil]
  rw [layoutOf_leaf .machine _ (by simp) (by simp) (by simp)]
  decide

/-- The C-layout enum has no tag of its own, and `Option(Flag)` stores its tag in the flag of
the C-layout struct. -/
theorem promise_broken :
    ¬ KeepsPromise pool 0 ∧ ¬ KeepsPromise pool 1 := by
  constructor
  · intro kept
    have separate := kept.separate rfl
    have shape : optionPayload (pool.enumDef 0) = some .bool := rfl
    rw [(layoutOf_enum_niche shape niches_bool).2.1] at separate
    cases separate
  · intro kept
    apply kept.unconsumed (.struct 0) rfl
    have shape : optionPayload (pool.enumDef 1) = some (.struct 0) := rfl
    refine ⟨(layoutOf_enum_niche shape niches_flag).1, .struct 0, shape, ?_⟩
    exact .own (by rw [niches_flag]; simp)

end CLayoutSample

end CLayout

end Gruel
