import Gruel.LayoutCacheCore

/-!
When cached layouts go stale: the cache is faithful to the definitions it was filled
from, new types leave it faithful, and a replaced definition does so exactly when the
cached types around it keep their layout.
-/

namespace Gruel

open MemoTable

namespace TypeInternPoolInner

variable {pool : TypeInternPoolInner}
variable {layouts : Ty → Layout} {types : List (List Ty)}

theorem LaidOut.functional {ty : Ty} {layout other : Layout} (laidOut : LaidOut pool ty layout)
    (again : LaidOut pool ty other) : other = layout := by
  induction laidOut generalizing other with
  | struct layouts defined fields ih =>
    cases again with
    | struct otherLayouts otherDefined otherFields =>
      cases defined.symm.trans otherDefined
      congr 1
      exact List.map_congr_left fun ty member => ih ty member (otherFields ty member)
    | leaf notStruct _ _ => exact absurd rfl (notStruct _)
  | array defined elements ih =>
    cases again with
    | array otherDefined otherElements =>
      cases defined.symm.trans otherDefined
      rw [ih otherElements]
    | leaf _ notArray _ => exact absurd rfl (notArray _)
  | enum layouts defined payloads ih =>
    cases again with
    | enum otherLayouts otherDefined otherPayloads =>
      cases defined.symm.trans otherDefined
      congr 1
      refine List.map_congr_left fun variant inEnum => List.map_congr_left fun ty member => ?_
      exact ih variant inEnum ty member (otherPayloads variant inEnum ty member)
    | leaf _ _ notEnum => exact absurd rfl (notEnum _)
  | leaf notStruct notArray notEnum =>
    cases again with
    | struct => exact absurd rfl (notStruct _)
    | array => exact absurd rfl (notArray _)
    | enum => exact absurd rfl (notEnum _)
    | leaf => rfl

def Assigns (pool : TypeInternPoolInner) (layouts : Ty → Layout) : Prop :=
  ∀ ty layout, LaidOut pool ty layout → layout = layouts ty

theorem exists_assigns (pool : TypeInternPoolInner) : ∃ layouts, Assigns pool layouts := by
  have assigned : ∀ ty, ∃ layout, ∀ other, LaidOut pool ty other → other = layout := by
    intro ty
    by_cases known : ∃ layout, LaidOut pool ty layout
    · obtain ⟨layout, laidOut⟩ := known
      exact ⟨layout, fun other again => laidOut.functional again⟩
    · exact ⟨.zeroSized, fun other again => absurd ⟨other, again⟩ known⟩
  exact ⟨fun ty => (assigned ty).choose, fun ty => (assigned ty).choose_spec⟩

theorem Assigns.map_eq (assigns : Assigns pool layouts) {types : List Ty} {found : List Layout}
    (laidOut : List.Forall₂ (LaidOut pool) types found) :
    found = types.map layouts ∧ ∀ ty ∈ types, LaidOut pool ty (layouts ty) := by
  induction laidOut with
  | nil => simp
  | cons first rest ih =>
    obtain rfl := assigns _ _ first
    refine ⟨by rw [ih.1, List.map_cons], ?_⟩
    simpa using ⟨first, ih.2⟩

theorem Assigns.map_map_eq (assigns : Assigns pool layouts) {found : List (List Layout)}
    (laidOut : List.Forall₂ (List.Forall₂ (LaidOut pool)) types found) :
    found = types.map (List.map layouts) ∧ ∀ group ∈ types, ∀ ty ∈ group, LaidOut pool ty (layouts ty) := by
  induction laidOut with
  | nil => simp
  | cons first rest ih =>
    obtain ⟨rfl, firstLaidOut⟩ := assigns.map_eq first
    refine ⟨by rw [ih.1, List.map_cons], ?_⟩
    simpa using ⟨firstLaidOut, ih.2⟩

theorem LaidOut.enum_of_groups {id : EnumId} {definition : EnumDef} (defined : pool.enumDef id = some definition)
    (payloads : ∀ group ∈ definition.variants.map EnumVariantDef.fields, ∀ ty ∈ group, LaidOut pool ty (layouts ty)) :
    LaidOut pool (.enum id) (enumLayout .machine definition
      ((definition.variants.map EnumVariantDef.fields).map (List.map layouts))) := by
  rw [List.map_map]
  refine .enum layouts defined fun variant inEnum => ?_
  exact payloads _ (List.mem_map_of_mem inEnum)

theorem tryNicheEncodedEnumLayout_map (layouts : Ty → Layout) (notFirst : ∀ payload, types ≠ [[], [payload]])
    (notSecond : ∀ payload, types ≠ [[payload], []]) :
    tryNicheEncodedEnumLayout (types.map (List.map layouts)) = none := by
  unfold tryNicheEncodedEnumLayout
  split
  case h_1 layout shape =>
      obtain ⟨first, rest, rfl, firstEmpty, restShape⟩ := List.map_eq_cons_iff.mp shape
      obtain ⟨second, others, rfl, secondShape, noOthers⟩ := List.map_eq_cons_iff.mp restShape
      obtain ⟨payload, fields, rfl, -, noFields⟩ := List.map_eq_cons_iff.mp secondShape
      obtain rfl := List.map_eq_nil_iff.mp firstEmpty
      obtain rfl := List.map_eq_nil_iff.mp noOthers
      obtain rfl := List.map_eq_nil_iff.mp noFields
      exact absurd rfl (notFirst payload)
  case h_2 layout shape =>
      obtain ⟨first, rest, rfl, firstShape, restShape⟩ := List.map_eq_cons_iff.mp shape
      obtain ⟨second, others, rfl, secondEmpty, noOthers⟩ := List.map_eq_cons_iff.mp restShape
      obtain ⟨payload, fields, rfl, -, noFields⟩ := List.map_eq_cons_iff.mp firstShape
      obtain rfl := List.map_eq_nil_iff.mp secondEmpty
      obtain rfl := List.map_eq_nil_iff.mp noOthers
      obtain rfl := List.map_eq_nil_iff.mp noFields
      exact absurd rfl (notSecond payload)
  case h_3 => rfl

section Sound

variable {layoutOf : LayoutQuery} (sound : Sound (LaidOut pool) (LaidOut pool) layoutOf)
  {layouts : Ty → Layout} (assigns : Assigns pool layouts)
include sound assigns

theorem tryNicheEncodedEnum_sound : Sound (LaidOut pool) (fun definition niche =>
      let types := definition.variants.map EnumVariantDef.fields
      niche = tryNicheEncodedEnumLayout (types.map (List.map layouts)) ∧
        (niche.isSome → ∀ group ∈ types, ∀ ty ∈ group, LaidOut pool ty (layouts ty)))
      (tryNicheEncodedEnum layoutOf) := by
  intro definition cache niche after faithful called
  unfold tryNicheEncodedEnum at called
  dsimp only
  split at called
  case h_1 payload shape | h_2 payload shape =>
      obtain ⟨⟨layout, last⟩, queried, result⟩ := Option.bind_eq_some_iff.mp called
      cases result
      obtain ⟨laidOut, faithful⟩ := sound payload cache layout after faithful queried
      obtain rfl := assigns _ _ laidOut
      rw [shape]
      exact ⟨⟨rfl, fun _ => by simpa using laidOut⟩, faithful⟩
  case h_3 notFirst notSecond =>
      cases called
      refine ⟨⟨?_, fun some => by cases some⟩, faithful⟩
      rw [tryNicheEncodedEnumLayout_map layouts (fun payload => notFirst payload) (fun payload => notSecond payload)]

theorem enumSeparate_sound : Sound (LaidOut pool) (fun definition layout =>
      let types := definition.variants.map EnumVariantDef.fields
      layout = enumLayoutSeparate .machine definition (types.map (List.map layouts)) ∧
        ∀ group ∈ types, ∀ ty ∈ group, LaidOut pool ty (layouts ty))
      (enumSeparate layoutOf) := by
  intro definition cache layout after faithful called
  obtain ⟨⟨discrim, middle⟩, queried, called⟩ := Option.bind_eq_some_iff.mp called
  obtain ⟨⟨variants, _⟩, fields, result⟩ := Option.bind_eq_some_iff.mp called
  cases result
  obtain ⟨-, faithful⟩ := sound _ cache discrim middle faithful queried
  obtain ⟨laidOut, faithful⟩ := sound.each.each _ middle variants after faithful fields
  obtain ⟨rfl, groups⟩ := assigns.map_map_eq laidOut
  exact ⟨⟨rfl, groups⟩, faithful⟩

end Sound

theorem computeLayout_sound (layoutOf : LayoutQuery) (sound : Sound (LaidOut pool) (LaidOut pool) layoutOf) :
    Sound (LaidOut pool) (LaidOut pool) (computeLayout pool layoutOf) := by
  obtain ⟨layouts, assigns⟩ := exists_assigns pool
  intro _ cache layout after faithful called
  unfold computeLayout at called
  split at called
  case h_1 id =>
      obtain ⟨definition, defined, called⟩ := Option.bind_eq_some_iff.mp called
      obtain ⟨⟨fields, last⟩, queried, result⟩ := Option.bind_eq_some_iff.mp called
      cases result
      obtain ⟨laidOut, faithful⟩ := sound.each _ cache fields after faithful queried
      obtain ⟨rfl, members⟩ := assigns.map_eq laidOut
      exact ⟨.struct layouts defined members, faithful⟩
  case h_2 id =>
      obtain ⟨⟨_, _⟩, defined, called⟩ := Option.bind_eq_some_iff.mp called
      obtain ⟨⟨element, last⟩, queried, result⟩ := Option.bind_eq_some_iff.mp called
      cases result
      obtain ⟨laidOut, faithful⟩ := sound _ cache element after faithful queried
      exact ⟨.array defined laidOut, faithful⟩
  case h_3 id =>
      obtain ⟨definition, defined, called⟩ := Option.bind_eq_some_iff.mp called
      obtain ⟨⟨niche, middle⟩, tried, called⟩ := Option.bind_eq_some_iff.mp called
      obtain ⟨⟨encoded, known⟩, faithful⟩ :=
        tryNicheEncodedEnum_sound sound assigns definition cache niche middle faithful tried
      cases niche with
      | some found =>
        cases called
        have laidOut := LaidOut.enum_of_groups defined (known rfl)
        unfold enumLayout at laidOut
        rw [← encoded] at laidOut
        exact ⟨laidOut, faithful⟩
      | none =>
        obtain ⟨⟨rfl, groups⟩, faithful⟩ :=
          enumSeparate_sound sound assigns definition middle layout after faithful called
        have laidOut := LaidOut.enum_of_groups defined groups
        unfold enumLayout at laidOut
        rw [← encoded] at laidOut
        exact ⟨laidOut, faithful⟩
  case h_4 notStruct notArray notEnum =>
      cases called
      exact ⟨.leaf notStruct notArray notEnum, faithful⟩

section Settles

variable {layoutOf : LayoutQuery} {definition : EnumDef} {layouts : Ty → Layout}
  (payloads : ∀ group ∈ definition.variants.map EnumVariantDef.fields, ∀ ty ∈ group,
    Settles (LaidOut pool) layoutOf ty (layouts ty))
include payloads

theorem tryNicheEncodedEnum_settles :
    Settles (LaidOut pool) (tryNicheEncodedEnum layoutOf) definition (tryNicheEncodedEnumLayout
        ((definition.variants.map EnumVariantDef.fields).map (List.map layouts))) := by
  intro cache faithful
  unfold tryNicheEncodedEnum
  split
  case h_1 payload shape | h_2 payload shape =>
      rw [shape] at payloads ⊢
      obtain ⟨after, queried, faithful⟩ :=
        payloads [payload] (by simp) payload (by simp) cache faithful
      exact ⟨after, by simp [queried, tryNicheEncodedEnumLayout], faithful⟩
  case h_3 notFirst notSecond =>
      refine ⟨cache, ?_, faithful⟩
      rw [tryNicheEncodedEnumLayout_map layouts (fun payload => notFirst payload) (fun payload => notSecond payload)]

theorem enumSeparate_settles {discrim : Layout}
    (discriminant : Settles (LaidOut pool) layoutOf definition.discriminantType discrim) :
    Settles (LaidOut pool) (enumSeparate layoutOf) definition (enumLayoutSeparate .machine definition
        ((definition.variants.map EnumVariantDef.fields).map (List.map layouts))) := by
  intro cache faithful
  obtain ⟨middle, queried, faithful⟩ := discriminant cache faithful
  obtain ⟨after, fields, faithful⟩ :=
    Settles.each (fun group member => Settles.each (payloads group member)) middle faithful
  exact ⟨after, by simp [enumSeparate, queried, fields], faithful⟩

end Settles

variable {after : TypeInternPoolInner} {layout : Layout} {redefined : Option Ty}
variable {ty : Ty} {interned : InternedType}

theorem discriminantType_scalar (definition : EnumDef) :
    definition.discriminantType.isInteger = true ∨ definition.discriminantType = .never := by
  unfold EnumDef.discriminantType
  dsimp only
  split_ifs
  · exact .inl rfl
  · exact .inr rfl
  · exact .inl rfl
  · exact .inl rfl
  · exact .inl rfl
  · exact .inl rfl

theorem eventually_of_computed (laidOut : LaidOut pool ty layout) (computes : ∃ enough, ∀ fuel ≥ enough,
      Settles (LaidOut pool) (computeLayout pool (through (computeLayout pool) fuel)) ty layout) :
    Eventually (LaidOut pool) (through (computeLayout pool)) ty layout :=
  .through laidOut (fun again => laidOut.functional again) computes

theorem eventually_leaf (notStruct : ∀ id, ty ≠ .struct id) (notArray : ∀ id, ty ≠ .array id)
    (notEnum : ∀ id, ty ≠ .enum id) :
    Eventually (LaidOut pool) (through (computeLayout pool)) ty (scalarLayout ty) := by
  refine eventually_of_computed (.leaf notStruct notArray notEnum)
    ⟨0, fun fuel _ cache faithful => ⟨cache, ?_, faithful⟩⟩
  cases ty
  case struct id => exact absurd rfl (notStruct id)
  case array id => exact absurd rfl (notArray id)
  case enum id => exact absurd rfl (notEnum id)
  all_goals rfl

theorem eventually_discriminant (definition : EnumDef) :
    Eventually (LaidOut pool) (through (computeLayout pool)) definition.discriminantType
      (scalarLayout definition.discriminantType) := by
  have scalar := discriminantType_scalar definition
  refine eventually_leaf ?_ ?_ ?_ <;>
    · intro _ composite
      rw [composite] at scalar
      simp [Ty.isInteger, Ty.isSigned, Ty.isUnsigned] at scalar

theorem LaidOut.eventually (laidOut : LaidOut pool ty layout) :
    Eventually (LaidOut pool) (through (computeLayout pool)) ty layout := by
  induction laidOut with
  | struct layouts defined fields ih =>
    refine eventually_of_computed (.struct layouts defined fields) ?_
    obtain ⟨enough, settles⟩ := Eventually.uniform ih
    refine ⟨enough, fun fuel bound cache faithful => ?_⟩
    obtain ⟨after, called, faithful⟩ := Settles.each (settles fuel bound) cache faithful
    exact ⟨after, by simp [computeLayout, defined, called], faithful⟩
  | array defined elements ih =>
    refine eventually_of_computed (.array defined elements) ?_
    obtain ⟨enough, settles⟩ := ih
    refine ⟨enough, fun fuel bound cache faithful => ?_⟩
    obtain ⟨after, called, faithful⟩ := settles fuel bound cache faithful
    exact ⟨after, by simp [computeLayout, defined, called], faithful⟩
  | @enum id definition layouts defined payloads ih =>
    refine eventually_of_computed (.enum layouts defined payloads) ?_
    have each : ∀ ty ∈ (definition.variants.map EnumVariantDef.fields).flatten,
        Eventually (LaidOut pool) (through (computeLayout pool)) ty (layouts ty) := by
      intro ty member
      obtain ⟨group, inEnum, inGroup⟩ := List.mem_flatten.mp member
      obtain ⟨variant, inVariants, rfl⟩ := List.mem_map.mp inEnum
      exact ih variant inVariants ty inGroup
    obtain ⟨enough, settles⟩ := Eventually.uniform each
    obtain ⟨scalarEnough, discriminant⟩ :
        Eventually (LaidOut pool) (through (computeLayout pool)) definition.discriminantType
          (scalarLayout definition.discriminantType) := eventually_discriminant definition
    refine ⟨max enough scalarEnough, fun fuel bound cache faithful => ?_⟩
    have members : ∀ group ∈ definition.variants.map EnumVariantDef.fields, ∀ ty ∈ group,
        Settles (LaidOut pool) (through (computeLayout pool) fuel) ty (layouts ty) :=
      fun group inEnum ty inGroup => settles fuel (Nat.le_trans (Nat.le_max_left _ _) bound) ty
        (List.mem_flatten.mpr ⟨group, inEnum, inGroup⟩)
    have groups : definition.variants.map (fun variant => variant.fields.map layouts) =
        (definition.variants.map EnumVariantDef.fields).map (List.map layouts) := by
      rw [List.map_map]
      rfl
    obtain ⟨middle, tried, faithful⟩ := tryNicheEncodedEnum_settles members cache faithful
    rw [groups, enumLayout]
    cases encoded : tryNicheEncodedEnumLayout
        ((definition.variants.map EnumVariantDef.fields).map (List.map layouts)) with
    | some layout =>
      rw [encoded] at tried
      exact ⟨middle, by simp [computeLayout, defined, tried], faithful⟩
    | none =>
      rw [encoded] at tried
      obtain ⟨after, separate, faithful⟩ := enumSeparate_settles members
        (discriminant fuel (Nat.le_trans (Nat.le_max_right _ _) bound)) middle faithful
      exact ⟨after, by simp [computeLayout, defined, tried, separate], faithful⟩
  | leaf notStruct notArray notEnum => exact eventually_leaf notStruct notArray notEnum

theorem Keeps.internedToType (keeps : Keeps pool after) (converts : pool.internedToTypeRecursive interned = some ty) :
    after.internedToTypeRecursive interned = some ty := by
  unfold internedToTypeRecursive at converts ⊢
  cases indexed : interned.poolIndex with
  | none => rwa [indexed] at converts
  | some id =>
    rw [indexed] at converts
    obtain ⟨data, present, made⟩ := Option.map_eq_some_iff.mp converts
    obtain ⟨_, keptPresent, same⟩ := keeps id data present
    simp [keptPresent, ← same.compositeType_eq, made]

theorem Keeps.arrayDef (keeps : Keeps pool after) {id : ArrayTypeId} {elementType : Ty} {len : Nat}
    (defined : pool.arrayDef id = some (elementType, len)) :
    after.arrayDef id = some (elementType, len) := by
  unfold TypeInternPoolInner.arrayDef at defined
  split at defined
  case h_1 element length present =>
      obtain ⟨_, converts, result⟩ := Option.map_eq_some_iff.mp defined
      cases result
      have kept : after.types[id]? = some (StructuralKind.build (.array len, element)) :=
        keeps.structural present
      unfold TypeInternPoolInner.arrayDef
      rw [kept]
      simp [StructuralKind.build, keeps.internedToType converts]
  case h_2 => cases defined

inductive TypesAfter (pool : TypeInternPoolInner) : Option Ty → List TypeData → Prop
  | same : TypesAfter pool none pool.types
  | append (data : TypeData) : TypesAfter pool none (pool.types ++ [data])
  | setStruct {id : StructId} (isStruct : pool.IsStruct id) (data : TypeData) :
      TypesAfter pool (some (.struct id)) (pool.types.set id data)
  | setEnum {id : EnumId} (isEnum : pool.IsEnum id) (data : TypeData) :
      TypesAfter pool (some (.enum id)) (pool.types.set id data)

theorem intern_types {kind : StructuralKind} {component : InternedType}
    (called : pool.intern kind component = some (after, interned)) :
    TypesAfter pool none after.types := by
  rw [intern_eq] at called
  unfold internWith at called
  split at called
  case h_1 existing found =>
      cases called
      exact .same
  case h_2 missed =>
      obtain ⟨_, _, result⟩ := Option.bind_eq_some_iff.mp called
      cases result
      rw [record_types]
      exact .append _

theorem perform_types {call : PoolCall} {handle : PoolHandle} (accepted : pool.Accepts call)
    (performed : pool.perform call = some (after, handle)) :
    TypesAfter pool call.redefines after.types := by
  cases call with
  | registerStruct name definition =>
    obtain ⟨⟨reached, id, isNew⟩, called, result⟩ := Option.map_eq_some_iff.mp performed
    cases result
    unfold registerStruct at called
    split at called
    case h_1 existing found =>
        obtain ⟨index, -, result⟩ := Option.map_eq_some_iff.mp called
        cases result
        exact .same
    case h_2 missed =>
        obtain ⟨interned, fits, result⟩ := Option.bind_eq_some_iff.mp called
        cases result
        exact .append _
  | reserveStructId =>
    obtain ⟨⟨reached, id⟩, called, result⟩ := Option.map_eq_some_iff.mp performed
    cases result
    unfold reserveStructId at called
    split at called
    case isTrue =>
        cases called
        exact .append _
    case isFalse => cases called
  | completeStructRegistration id name definition =>
    obtain ⟨reached, called, result⟩ := Option.map_eq_some_iff.mp performed
    cases result
    unfold completeStructRegistration at called
    split at called
    case isTrue => cases called
    case isFalse inside =>
        split at called
        case isTrue => cases called
        case isFalse fresh =>
            obtain ⟨interned, fits, result⟩ := Option.bind_eq_some_iff.mp called
            cases result
            exact .setStruct accepted _
  | registerEnum name definition =>
    obtain ⟨⟨reached, id, isNew⟩, called, result⟩ := Option.map_eq_some_iff.mp performed
    cases result
    unfold registerEnum at called
    split at called
    case h_1 existing found =>
        obtain ⟨index, -, result⟩ := Option.map_eq_some_iff.mp called
        cases result
        exact .same
    case h_2 missed =>
        obtain ⟨interned, fits, result⟩ := Option.bind_eq_some_iff.mp called
        cases result
        exact .append _
  | updateStructDef id definition =>
    obtain ⟨reached, called, result⟩ := Option.map_eq_some_iff.mp performed
    cases result
    unfold updateStructDef at called
    split at called
    case h_1 name old was =>
        cases called
        exact .setStruct ⟨name, old, was⟩ _
    case h_2 => cases called
  | updateEnumDef id definition =>
    obtain ⟨reached, called, result⟩ := Option.map_eq_some_iff.mp performed
    cases result
    unfold updateEnumDef at called
    split at called
    case h_1 name old was =>
        cases called
        exact .setEnum ⟨name, old, was⟩ _
    case h_2 => cases called
  | intern kind component =>
    obtain ⟨⟨reached, interned⟩, called, rest⟩ := Option.bind_eq_some_iff.mp performed
    obtain ⟨id, -, result⟩ := Option.bind_eq_some_iff.mp rest
    cases result
    exact intern_types called
  | internType kind component =>
    obtain ⟨interned, -, rest⟩ := Option.bind_eq_some_iff.mp performed
    obtain ⟨⟨reached, id⟩, called, result⟩ := Option.bind_eq_some_iff.mp rest
    cases result
    rw [internType_eq] at called
    obtain ⟨_, -, called⟩ := Option.bind_eq_some_iff.mp called
    obtain ⟨⟨_, name⟩, interns, called⟩ := Option.bind_eq_some_iff.mp called
    obtain ⟨_, -, result⟩ := Option.bind_eq_some_iff.mp called
    cases result
    exact intern_types interns

structure Preserves (pool after : TypeInternPoolInner) (redefined : Option Ty) : Prop where
  structs : ∀ {id definition}, redefined ≠ some (.struct id) →
    pool.structDef id = some definition → after.structDef id = some definition
  enums : ∀ {id definition}, redefined ≠ some (.enum id) →
    pool.enumDef id = some definition → after.enumDef id = some definition
  arrays : ∀ {id definition}, pool.arrayDef id = some definition → after.arrayDef id = some definition

theorem structDef_eq_some {id : StructId} {definition : StructDef} : pool.structDef id = some definition ↔
      ∃ name, pool.types[id]? = some (.struct name definition) := by
  unfold structDef
  split
  case h_1 name found present => simp [present]
  case h_2 other =>
      simp only [reduceCtorEq, false_iff, not_exists]
      exact fun name => other name definition

theorem enumDef_eq_some {id : EnumId} {definition : EnumDef} : pool.enumDef id = some definition ↔
      ∃ name, pool.types[id]? = some (.enum name definition) := by
  unfold enumDef
  split
  case h_1 name found present => simp [present]
  case h_2 other =>
      simp only [reduceCtorEq, false_iff, not_exists]
      exact fun name => other name definition

theorem TypesAfter.slot (types : TypesAfter pool redefined after.types) {id : Nat} {data : TypeData}
    (present : pool.types[id]? = some data) :
    after.types[id]? = some data ∨ (redefined = some (.struct id) ∧ pool.IsStruct id) ∨
      (redefined = some (.enum id) ∧ pool.IsEnum id) := by
  generalize same : after.types = now at types ⊢
  cases types with
  | same => exact .inl present
  | append added =>
    left
    rwa [List.getElem?_append_left (List.getElem?_eq_some_iff.mp present).1]
  | @setStruct position isStruct added =>
    by_cases here : position = id
    · subst here
      exact .inr (.inl ⟨rfl, isStruct⟩)
    · left
      rwa [List.getElem?_set_ne here]
  | @setEnum position isEnum added =>
    by_cases here : position = id
    · subst here
      exact .inr (.inr ⟨rfl, isEnum⟩)
    · left
      rwa [List.getElem?_set_ne here]

theorem TypesAfter.preserves (types : TypesAfter pool redefined after.types)
    (keeps : Keeps pool after) : Preserves pool after redefined := by
  refine ⟨fun {id definition} other defined => ?_, fun {id definition} other defined => ?_,
    fun {id definition} => keeps.arrayDef⟩
  · obtain ⟨name, present⟩ := structDef_eq_some.1 defined
    rcases types.slot present with kept | ⟨here, -⟩ | ⟨-, _, _, isEnum⟩
    · exact structDef_eq_some.2 ⟨name, kept⟩
    · exact absurd here other
    · rw [present] at isEnum
      cases isEnum
  · obtain ⟨name, present⟩ := enumDef_eq_some.1 defined
    rcases types.slot present with kept | ⟨-, _, _, isStruct⟩ | ⟨here, -⟩
    · exact enumDef_eq_some.2 ⟨name, kept⟩
    · rw [present] at isStruct
      cases isStruct
    · exact absurd here other

theorem LaidOut.preserved (preserves : Preserves pool after redefined) (laidOut : LaidOut pool ty layout)
    (apart : ∀ target, redefined = some target → ¬pool.Embeds ty target) :
    LaidOut after ty layout := by
  induction laidOut with
  | @struct id definition layouts defined fields ih =>
    have other : redefined ≠ some (.struct id) := fun here => apart _ here (.self _)
    refine .struct layouts (preserves.structs other defined) fun part member => ?_
    refine ih part member fun target here inside => apart target here (.part ?_ inside)
    simpa [components, defined] using member
  | @array id elementType len element defined elements ih =>
    refine .array (preserves.arrays defined) (ih fun target here inside => ?_)
    exact apart target here (.part (by simp [components, defined]) inside)
  | @enum id definition layouts defined payloads ih =>
    have other : redefined ≠ some (.enum id) := fun here => apart _ here (.self _)
    refine .enum layouts (preserves.enums other defined) fun variant inEnum part member => ?_
    refine ih variant inEnum part member fun target here inside =>
      apart target here (.part ?_ inside)
    simp only [components, defined, Option.map_some, Option.getD_some, List.mem_flatMap]
    exact ⟨variant, inEnum, member⟩
  | leaf notStruct notArray notEnum => exact .leaf notStruct notArray notEnum

end TypeInternPoolInner

namespace CachingPool

open TypeInternPoolInner

theorem recomputes_iff {pool : TypeInternPoolInner} {ty : Ty} {layout : Layout} :
    Recomputes pool ty layout ↔ LaidOut pool ty layout :=
  returns_iff computeLayout_sound LaidOut.eventually faithful_nil

theorem neverStale_iff {pool : CachingPool} : pool.NeverStale ↔ Faithful (LaidOut pool.inner) pool.layoutCache :=
  returns_as_from_nil_iff computeLayout_sound LaidOut.eventually

theorem Run.canonical {pool : CachingPool} {earlier : List (CachingPool × LayoutEvent)}
    (run : Run pool earlier) : Canonical pool.inner := by
  induction run with
  | start => exact canonical_empty
  | @step pool after event earlier before accepted performed ih =>
    cases event with
    | call call =>
      obtain ⟨⟨inner, _⟩, called, result⟩ := Option.bind_eq_some_iff.mp performed
      cases result
      exact (perform_performed ih accepted called).canonical
    | query ty fuel =>
      obtain ⟨⟨_, _⟩, called, result⟩ := Option.bind_eq_some_iff.mp performed
      cases result
      exact ih

theorem step_neverStale_iff {pool after : CachingPool} {event : LayoutEvent}
    (canonical : Canonical pool.inner) (accepted : pool.Accepts event)
    (performed : pool.perform event = some after) (fresh : pool.NeverStale) :
    after.NeverStale ↔ pool.Spares event := by
  rw [neverStale_iff] at fresh ⊢
  cases event with
  | query ty fuel =>
    obtain ⟨⟨layout, cache⟩, called, result⟩ := Option.bind_eq_some_iff.mp performed
    cases result
    have sound :=
      through_sound computeLayout_sound fuel ty pool.layoutCache layout cache fresh called
    exact ⟨fun _ => trivial, fun _ => sound.2⟩
  | call call =>
    obtain ⟨⟨inner, handle⟩, called, result⟩ := Option.bind_eq_some_iff.mp performed
    cases result
    have preserves := (perform_types accepted called).preserves (perform_performed canonical accepted called).keeps
    constructor
    · intro faithful _ _ _ _ again ty layout cached _ before
      cases called.symm.trans again
      obtain ⟨stored, found⟩ := Option.isSome_iff_exists.mp cached
      obtain rfl := (fresh ty stored found).functional before
      exact faithful ty _ found
    · intro spares ty layout found
      have laidOut := fresh ty layout found
      by_cases inside : ∃ target, call.redefines = some target ∧ pool.inner.Embeds ty target
      · obtain ⟨target, here, inside⟩ := inside
        have cached : (pool.layoutCache.lookup ty).isSome :=
          Option.isSome_iff_exists.mpr ⟨layout, found⟩
        exact spares target inner handle here called ty layout cached inside laidOut
      · exact laidOut.preserved preserves fun target here embeds => inside ⟨target, here, embeds⟩

/-- In every run of registrations, completions, updates, interning calls and layout
queries: no state of the run answers a layout query with a stale layout exactly when
every call of the run that replaces a definition spares the cached layouts around it. -/
theorem layouts_neverStale_iff {pool : CachingPool} {earlier : List (CachingPool × LayoutEvent)}
    (run : Run pool earlier) :
    (pool.NeverStale ∧ ∀ passed ∈ earlier, passed.1.NeverStale) ↔ ∀ passed ∈ earlier, passed.1.Spares passed.2 := by
  induction run with
  | start =>
    refine ⟨fun _ passed member => absurd member List.not_mem_nil, fun _ => ⟨?_, by simp⟩⟩
    exact fun ty layout => Iff.rfl
  | @step pool after event earlier before accepted performed ih =>
    rw [List.forall_mem_cons, List.forall_mem_cons, ← ih]
    constructor
    · rintro ⟨afterFresh, fresh, allFresh⟩
      have stepped := step_neverStale_iff before.canonical accepted performed fresh
      exact ⟨stepped.mp afterFresh, fresh, allFresh⟩
    · rintro ⟨spares, fresh, allFresh⟩
      have stepped := step_neverStale_iff before.canonical accepted performed fresh
      exact ⟨stepped.mpr spares, fresh, allFresh⟩

def emptyStruct : StructDef := { name := "S", fields := [] }

def oneFieldStruct : StructDef := { name := "S", fields := [{ name := "x", ty := .i32 }] }

theorem query_oneFieldStruct_neverStale :
    ∃ pool earlier, Run pool earlier ∧ (pool.layoutCache.lookup (.struct 0)).isSome ∧ pool.NeverStale := by
  let registered : CachingPool :=
    { inner := { types := [.struct 1 oneFieldStruct], structByName := [(1, ⟨34⟩)] } }
  let queried : CachingPool := { registered with
      layoutCache := [(.struct 0, { size := 4, align := 4 }), (.i32, { size := 4, align := 4 })] }
  have register : ({} : CachingPool).perform (.call (.registerStruct 1 oneFieldStruct)) = some registered := rfl
  have query : registered.perform (.query (.struct 0) 2) = some queried := rfl
  have first : Run registered [({}, .call (.registerStruct 1 oneFieldStruct))] :=
    .step .start trivial register
  have run : Run queried ((registered, .query (.struct 0) 2) :: _) := .step first trivial query
  refine ⟨queried, _, run, rfl, ((layouts_neverStale_iff run).mpr ?_).1⟩
  simp [Spares, PoolCall.redefines]

/-- A struct queried before its fields are resolved keeps the layout of an empty one. -/
theorem queried_before_update_stale :
    ∃ pool earlier, Run pool earlier ∧ pool.LayoutOf (.struct 0) { size := 0, align := 1 } ∧
      Recomputes pool.inner (.struct 0) { size := 4, align := 4 } ∧ ¬pool.NeverStale := by
  let registered : CachingPool :=
    { inner := { types := [.struct 1 emptyStruct], structByName := [(1, ⟨34⟩)] } }
  let queried : CachingPool :=
    { registered with layoutCache := [(.struct 0, { size := 0, align := 1 })] }
  let updated : CachingPool :=
    { queried with inner := { registered.inner with types := [.struct 1 oneFieldStruct] } }
  have register : ({} : CachingPool).perform (.call (.registerStruct 1 emptyStruct)) = some registered := rfl
  have query : registered.perform (.query (.struct 0) 1) = some queried := rfl
  have update : queried.perform (.call (.updateStructDef 0 oneFieldStruct)) = some updated := rfl
  have first : Run registered [({}, .call (.registerStruct 1 emptyStruct))] :=
    .step .start trivial register
  have second : Run queried ((registered, .query (.struct 0) 1) :: _) := .step first trivial query
  have run : Run updated ((queried, .call (.updateStructDef 0 oneFieldStruct)) :: _) :=
    .step second trivial update
  have stale : updated.LayoutOf (.struct 0) { size := 0, align := 1 } := ⟨1, _, rfl⟩
  have recomputed : Recomputes updated.inner (.struct 0) { size := 4, align := 4 } := ⟨2, _, rfl⟩
  refine ⟨updated, _, run, stale, recomputed, fun fresh => ?_⟩
  have same := (recomputes_iff.1 recomputed).functional (recomputes_iff.1 ((fresh _ _).mp stale))
  simp at same

end CachingPool

end Gruel
