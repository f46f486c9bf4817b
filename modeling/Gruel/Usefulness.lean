import Mathlib.Data.Fintype.EquivFin
import Gruel.UsefulnessCore

/-!
Soundness and completeness of the usefulness recursion.
-/

namespace Gruel

open AirPattern Value

attribute [local simp] WellTypedAll Matches HasType ctorSubTypes Ty.isUnsigned specializePattern
  Ty.isInteger WellTyped Ty.isSigned MatchesAll Ty.asStruct HaveTypes WellTypedFields

variable {ctor : Ctor} {pattern : AirPattern} {values : List Value} {row next : List AirPattern}
  {value : Value} {frontTys backTys : List Ty}

variable {part : Ty} {front back subs : List AirPattern}
variable {pool : TypeInternPool} {ty : Ty} {tys : List Ty}

inductive TypeComponent (pool : TypeInternPool) : Ty → Ty → Prop
  | field {id ty} : ty ∈ (pool.structDef id).fieldTypes → TypeComponent pool (.struct id) ty
  | payload {id variant ty} : variant ∈ (pool.enumDef id).variants → ty ∈ variant.fields →
      TypeComponent pool (.enum id) ty

def Matchable : Ty → Prop
  | .bool | .struct _ | .enum _ => True
  | ty => ty.isInteger = true

structure ScrutineeType (pool : TypeInternPool) (ty : Ty) : Prop where
  matchable : ∀ part, Relation.ReflTransGen (TypeComponent pool) ty part → Matchable part
  inhabited : ∀ part, Relation.ReflTransGen (TypeComponent pool) ty part → ∃ value, HasType pool value part

theorem ScrutineeType.component (scrutinee : ScrutineeType pool ty) (component : TypeComponent pool ty part) :
    ScrutineeType pool part where
  matchable inner path := scrutinee.matchable inner (.head component path)
  inhabited inner path := scrutinee.inhabited inner (.head component path)

theorem haveTypes_length : ∀ {values : List Value} {tys : List Ty},
    HaveTypes pool values tys → values.length = tys.length
  | [], [], _ => rfl
  | _ :: _, _ :: _, typed => by
      simp [haveTypes_length typed.2]
  | [], _ :: _, typed => by simp at typed
  | _ :: _, [], typed => by simp at typed

theorem haveTypes_append {front : List Value} (lengths : front.length = frontTys.length) {back : List Value} :
    HaveTypes pool (front ++ back) (frontTys ++ backTys) ↔
      HaveTypes pool front frontTys ∧ HaveTypes pool back backTys := by
  induction front generalizing frontTys with
  | nil =>
    cases frontTys with
    | nil => simp
    | cons _ _ => simp at lengths
  | cons value front ih =>
    cases frontTys with
    | nil => simp at lengths
    | cons ty frontTys =>
      simp [List.cons_append, HaveTypes, ih (by simpa using lengths), and_assoc]

theorem haveTypes_split (typed : HaveTypes pool values (frontTys ++ backTys)) :
    ∃ front back, values = front ++ back ∧ HaveTypes pool front frontTys ∧ HaveTypes pool back backTys := by
  have total := haveTypes_length typed
  simp only [List.length_append] at total
  have frontLength : (values.take frontTys.length).length = frontTys.length := by
    simp only [List.length_take]
    omega
  rw [← List.take_append_drop frontTys.length values, haveTypes_append frontLength] at typed
  exact ⟨_, _, (List.take_append_drop frontTys.length values).symm, typed.1, typed.2⟩

theorem haveTypes_exists (inhabited : ∀ ty ∈ tys, ∃ value, HasType pool value ty) :
    ∃ values, HaveTypes pool values tys := by
  induction tys with
  | nil => exact ⟨[], trivial⟩
  | cons ty tys ih =>
    obtain ⟨value, headTyped⟩ := inhabited ty (by simp)
    obtain ⟨values, tailTyped⟩ := ih fun other member => inhabited other (by simp [member])
    exact ⟨value :: values, by simpa only using ⟨headTyped, tailTyped⟩⟩

theorem wellTypedAll_length : ∀ {patterns : List AirPattern} {tys : List Ty},
      WellTypedAll pool patterns tys → patterns.length = tys.length
  | [], [], _ => rfl
  | _ :: _, _ :: _, typed => by
      simp [wellTypedAll_length typed.2]
  | [], _ :: _, typed => by simp at typed
  | _ :: _, [], typed => by simp at typed

theorem wellTypedAll_append (frontTyped : WellTypedAll pool front frontTys)
    (backTyped : WellTypedAll pool back backTys) :
    WellTypedAll pool (front ++ back) (frontTys ++ backTys) := by
  induction front generalizing frontTys with
  | nil =>
    cases frontTys with
    | nil => simpa using backTyped
    | cons _ _ => simp at frontTyped
  | cons pattern front ih =>
    cases frontTys with
    | nil => simp at frontTyped
    | cons ty frontTys =>
      exact ⟨frontTyped.1, ih frontTyped.2⟩

theorem wellTypedAll_split : ∀ {patterns : List AirPattern} {frontTys : List Ty},
      WellTypedAll pool patterns (frontTys ++ backTys) → ∃ front back, patterns = front ++ back ∧
        WellTypedAll pool front frontTys ∧ WellTypedAll pool back backTys
  | patterns, [], typed => ⟨[], patterns, rfl, by simp, typed⟩
  | [], _ :: _, typed => by simp at typed
  | pattern :: patterns, _ :: _, typed => by
      obtain ⟨front, back, rfl, frontTyped, backTyped⟩ := wellTypedAll_split typed.2
      refine ⟨pattern :: front, back, rfl, ?_, backTyped⟩
      exact ⟨typed.1, frontTyped⟩

theorem wellTypedAll_wildcards (tys : List Ty) : WellTypedAll pool (List.replicate tys.length .wildcard) tys := by
  induction tys with
  | nil => simp
  | cons ty tys ih => simpa [List.replicate_succ] using ih

theorem wellTypedAll_of_fields : ∀ {position : Nat} {fields : List (Nat × AirPattern)} {tys : List Ty},
      WellTypedFields pool position fields tys → WellTypedAll pool (fields.map Prod.snd) tys
  | _, [], [], _ => by simp
  | _, (_, _) :: _, _ :: _, typed => by
      exact ⟨typed.2.1, wellTypedAll_of_fields typed.2.2⟩
  | _, [], _ :: _, typed => by simp at typed
  | _, _ :: _, [], typed => by simp at typed

theorem matchesAll_length : ∀ {patterns : List AirPattern} {values : List Value},
    MatchesAll patterns values → patterns.length = values.length
  | [], [], _ => rfl
  | _ :: _, _ :: _, matched => by
      simp [matchesAll_length matched.2]
  | [], _ :: _, matched => by simp at matched
  | _ :: _, [], matched => by simp at matched

theorem matchesAll_append {frontValues backValues : List Value} (lengths : front.length = frontValues.length) :
    MatchesAll (front ++ back) (frontValues ++ backValues) ↔
      MatchesAll front frontValues ∧ MatchesAll back backValues := by
  induction front generalizing frontValues with
  | nil =>
    cases frontValues with
    | nil => simp
    | cons _ _ => simp at lengths
  | cons pattern front ih =>
    cases frontValues with
    | nil => simp at lengths
    | cons value frontValues =>
      simp [List.cons_append, MatchesAll, ih (by simpa using lengths), and_assoc]

theorem matchesAll_wildcards (values : List Value) : MatchesAll (List.replicate values.length .wildcard) values := by
  induction values with
  | nil => simp
  | cons value values ih => simpa [List.replicate_succ] using ih

theorem matchesFields_iff : ∀ (before : List Value) {fields : List (Nat × AirPattern)} {tys : List Ty}
      {values : List Value}, WellTypedFields pool before.length fields tys →
      values.length = tys.length →
      (MatchesFields fields (before ++ values) ↔ MatchesAll (fields.map Prod.snd) values)
  | _, [], [], [], _, _ => by simp [MatchesFields]
  | before, (index, pattern) :: fields, ty :: tys, value :: values, typed, lengths => by
      obtain ⟨rfl, _, tailTyped⟩ := typed
      have widths : values.length = tys.length := by simpa using lengths
      have tail := matchesFields_iff (before ++ [value]) (by simpa using tailTyped) widths
      simp only [List.append_assoc, List.singleton_append] at tail
      simp [MatchesFields, tail]
  | _, [], _ :: _, _, typed, _ => by simp at typed
  | _, _ :: _, [], _, typed, _ => by simp at typed
  | _, [], [], _ :: _, _, lengths => by simp at lengths
  | _, _ :: _, _ :: _, [], _, lengths => by simp at lengths

theorem matches_fields_iff {fields : List (Nat × AirPattern)}
    (typed : WellTypedFields pool 0 fields tys) (lengths : values.length = tys.length) :
    MatchesFields fields values ↔ MatchesAll (fields.map Prod.snd) values := by
  simpa using matchesFields_iff [] typed lengths

def valueCtor (pool : TypeInternPool) : Value → Ctor
  | .int n => .int n
  | .bool b => .bool b
  | .struct id fields =>
    if (pool.structDef id).isTupleShaped then .tuple fields.length else .struct id
  | .enum id index _ => .enumVariant id index

def valueFields : Value → List Value
  | .int _ | .bool _ => []
  | .struct _ fields => fields
  | .enum _ _ fields => fields

def CtorOf (pool : TypeInternPool) (ty : Ty) : Ctor → Prop
  | .wildcard => False
  | .int _ => ty.isInteger = true
  | .bool _ => ty = .bool
  | .enumVariant id index => ty = .enum id ∧ index < (pool.enumDef id).variants.length
  | .tuple arity => ∃ id, ty = .struct id ∧ (pool.structDef id).isTupleShaped = true ∧
      arity = (pool.structDef id).fields.length
  | .struct id => ty = .struct id ∧ (pool.structDef id).isTupleShaped = false

theorem variantFields_eq {id : EnumId} {index : Nat} {variant : EnumVariantDef}
    (found : (pool.enumDef id).variants[index]? = some variant) :
    variantFields pool id index = variant.fields := by
  simp [variantFields, found]

theorem fieldTypes_length (definition : StructDef) : definition.fieldTypes.length = definition.fields.length := by
  simp [StructDef.fieldTypes]

attribute [local simp] CtorOf

theorem ctorSubTypes_length (ofType : CtorOf pool ty ctor) :
    (ctorSubTypes pool ty ctor).length = ctorArity pool ctor := by
  cases ctor with
  | wildcard => simp at ofType
  | int _ | bool _ => rfl
  | enumVariant id index => rfl
  | tuple arity =>
    obtain ⟨id, rfl, _, rfl⟩ := ofType
    simp [ctorArity, fieldTypes_length]
  | struct id =>
    obtain ⟨rfl, _⟩ := ofType
    simp [ctorArity, fieldTypes_length]

theorem ctorSubTypes_component (ofType : CtorOf pool ty ctor)
    (member : part ∈ ctorSubTypes pool ty ctor) : TypeComponent pool ty part := by
  cases ctor with
  | wildcard => simp at ofType
  | int _ | bool _ => simp at member
  | enumVariant id index =>
    obtain ⟨rfl, bound⟩ := ofType
    simp only [ctorSubTypes, variantFields_eq (List.getElem?_eq_getElem bound)] at member
    exact .payload (List.getElem_mem bound) member
  | tuple arity =>
    obtain ⟨id, rfl, _, rfl⟩ := ofType
    exact .field (by simpa using member)
  | struct id =>
    obtain ⟨rfl, _⟩ := ofType
    exact .field (by simpa using member)

attribute [local simp] valueFields

theorem valueCtor_ofType (typed : HasType pool value ty) : CtorOf pool ty (valueCtor pool value) ∧
      HaveTypes pool (valueFields value) (ctorSubTypes pool ty (valueCtor pool value)) := by
  cases value with
  | int n => simpa [valueCtor] using typed
  | bool b => simpa [valueCtor] using typed
  | struct id fields =>
    obtain ⟨rfl, fieldsTyped⟩ := typed
    have count := haveTypes_length fieldsTyped
    rw [fieldTypes_length] at count
    cases shape : (pool.structDef id).isTupleShaped
    · simp [valueCtor, shape, fieldsTyped]
    · simp [valueCtor, shape, fieldsTyped, count]
  | enum id index fields =>
    simp only [HasType] at typed
    obtain ⟨rfl, _, found, fieldsTyped⟩ := typed
    have bound := (List.getElem?_eq_some_iff.mp found).1
    simp [valueCtor, bound, variantFields_eq found, fieldsTyped]

theorem exists_value_of_ctor {fields : List Value} (ofType : CtorOf pool ty ctor)
    (fieldsTyped : HaveTypes pool fields (ctorSubTypes pool ty ctor)) :
    ∃ value, HasType pool value ty ∧ valueCtor pool value = ctor ∧ valueFields value = fields := by
  have count := haveTypes_length fieldsTyped
  rw [ctorSubTypes_length ofType] at count
  cases ctor with
  | wildcard => simp at ofType
  | int n =>
    have empty : fields = [] := List.length_eq_zero_iff.mp count
    exact ⟨.int n, by simpa using ofType, rfl, by simp [empty]⟩
  | bool b =>
    have empty : fields = [] := List.length_eq_zero_iff.mp count
    exact ⟨.bool b, by simpa using ofType, rfl, by simp [empty]⟩
  | enumVariant id index =>
    obtain ⟨rfl, bound⟩ := ofType
    have found := List.getElem?_eq_getElem bound
    simp only [ctorSubTypes, variantFields_eq found] at fieldsTyped
    refine ⟨.enum id index fields, ?_, rfl, rfl⟩
    simp only [HasType]
    exact ⟨trivial, _, found, fieldsTyped⟩
  | tuple arity =>
    obtain ⟨id, rfl, shape, rfl⟩ := ofType
    refine ⟨.struct id fields, ?_, ?_, rfl⟩
    · simpa using fieldsTyped
    · simpa [valueCtor, shape, ctorArity] using count
  | struct id =>
    obtain ⟨rfl, shape⟩ := ofType
    simp only [ctorSubTypes, Ty.asStruct] at fieldsTyped
    refine ⟨.struct id fields, ?_, ?_, rfl⟩
    · simpa using fieldsTyped
    · simp [valueCtor, shape]

theorem mem_typeSignature {ctors : List Ctor} (signature : typeSignature pool ty = some ctors)
    (ctor : Ctor) : ctor ∈ ctors ↔ CtorOf pool ty ctor := by
  unfold typeSignature at signature
  split at signature
  · rename_i isBool
    subst isBool
    simp only [Option.some.injEq] at signature
    subst ctors
    cases ctor <;> simp
  · cases ty with
    | enum id =>
      simp only [Ty.asEnum, Option.some.injEq] at signature
      subst ctors
      cases ctor <;> simp
      exact ⟨fun ⟨bound, same⟩ => ⟨same, same ▸ bound⟩, fun ⟨same, bound⟩ => ⟨same ▸ bound, same⟩⟩
    | struct id =>
      simp only [Ty.asEnum, Ty.asStruct] at signature
      cases shape : (pool.structDef id).isTupleShaped <;>
        simp only [shape, if_true, Bool.false_eq_true, if_false, Option.some.injEq] at signature <;>
        subst ctors <;> cases ctor <;>
        simp [shape]
      · exact ⟨fun same => ⟨same.symm, same ▸ shape⟩, fun same => same.1.symm⟩
      · rintro rfl
        exact shape
    | _ => simp [Ty.asEnum] at signature

theorem isInteger_of_no_signature (matchable : Matchable ty)
    (signature : typeSignature pool ty = none) : ty.isInteger = true := by
  cases ty with
  | bool => simp [typeSignature] at signature
  | enum id => simp [typeSignature, Ty.asEnum] at signature
  | struct id =>
    cases shape : (pool.structDef id).isTupleShaped <;> simp [typeSignature, Ty.asEnum, shape] at signature
  | _ => exact matchable

theorem specializePattern_wildcard (blank : headCtor pattern = .wildcard) (ctor : Ctor) (arity : Nat) :
    specializePattern ctor arity pattern = some (List.replicate arity .wildcard) := by
  induction pattern using AirPattern.headInduction with
  | nested name isMut pattern ih =>
    exact ih blank
  | wildcard | bare => rfl
  | _ => simp [headCtor] at blank

theorem matches_wildcard (blank : headCtor pattern = .wildcard) (value : Value) : pattern.Matches value := by
  induction pattern using AirPattern.headInduction with
  | nested name isMut pattern ih =>
    exact ih blank
  | wildcard | bare => simp [MatchesInner]
  | _ => simp [headCtor] at blank

theorem headCtor_ofType (typed : WellTyped pool pattern ty) (proper : headCtor pattern ≠ .wildcard) :
    CtorOf pool ty (headCtor pattern) := by
  induction pattern using AirPattern.headInduction with
  | nested name isMut pattern ih =>
    exact ih typed proper
  | wildcard | bare => simp [headCtor, headCtorInner] at proper
  | int | bool | enumVariant | enumUnitVariant =>
    simpa [headCtor] using typed
  | enumDataVariant | enumStructVariant =>
    obtain ⟨same, _, found, _⟩ := typed
    exact ⟨same, (List.getElem?_eq_some_iff.mp found).1⟩
  | tuple elems =>
    simp only [WellTyped] at typed
    obtain ⟨id, same, shape, elemsTyped⟩ := typed
    exact ⟨id, same, shape, by rw [wellTypedAll_length elemsTyped, fieldTypes_length]⟩
  | struct id fields =>
    simp only [WellTyped] at typed
    exact ⟨typed.1, typed.2.1⟩

theorem specializePattern_self (pattern : AirPattern) (arity : Nat) :
    ∃ subs, specializePattern (headCtor pattern) arity pattern = some subs := by
  induction pattern using AirPattern.headInduction with
  | nested name isMut pattern ih => simpa [specializePattern, specializeInner, headCtor, headCtorInner] using ih
  | _ => simp [specializeInner, headCtor]

theorem specializePattern_head {arity : Nat} (typed : WellTyped pool pattern ty)
    (ofType : CtorOf pool ty ctor) (found : specializePattern ctor arity pattern = some subs) :
    headCtor pattern = .wildcard ∨ headCtor pattern = ctor := by
  induction pattern using AirPattern.headInduction with
  | nested name isMut pattern ih =>
    exact ih typed found
  | wildcard | bare => exact .inl rfl
  | int | bool | tuple | struct =>
    simp only [specializePattern, Option.ite_none_right_eq_some] at found
    exact .inr found.1.symm
  | enumVariant | enumUnitVariant | enumDataVariant | enumStructVariant =>
    simp only [specializePattern] at found
    split at found
    · simp only [Option.ite_none_right_eq_some] at found
      have sameEnum := ofType.1
      rw [typed.1] at sameEnum
      simp only [Ty.enum.injEq] at sameEnum
      exact .inr (by simp [headCtor, sameEnum, found.1])
    · simp at found

theorem specializePattern_typed (typed : WellTyped pool pattern ty) (ofType : CtorOf pool ty ctor)
    (found : specializePattern ctor (ctorArity pool ctor) pattern = some subs) :
    WellTypedAll pool subs (ctorSubTypes pool ty ctor) := by
  have wildcards : WellTypedAll pool (List.replicate (ctorArity pool ctor) .wildcard)
      (ctorSubTypes pool ty ctor) := by
    rw [← ctorSubTypes_length ofType]
    exact wellTypedAll_wildcards _
  have head := specializePattern_head typed ofType found
  induction pattern using AirPattern.headInduction with
  | nested name isMut pattern ih =>
    exact ih typed found head
  | wildcard | bare =>
    simp only [specializePattern, specializeInner, Option.some.injEq] at found
    exact found ▸ wildcards
  | int | bool =>
    simp only [specializePattern, Option.ite_none_right_eq_some, Option.some.injEq] at found
    simp [← found.2, found.1]
  | tuple elems =>
    simp only [specializePattern, Option.ite_none_right_eq_some, Option.some.injEq] at found
    obtain ⟨id, rfl, _, elemsTyped⟩ := typed
    simpa [← found.2, found.1] using elemsTyped
  | struct id fields =>
    simp only [specializePattern, Option.ite_none_right_eq_some, Option.some.injEq] at found
    simp only [WellTyped] at typed
    obtain ⟨rfl, _, fieldsTyped⟩ := typed
    simpa [← found.2, found.1] using wellTypedAll_of_fields fieldsTyped
  | enumVariant id index | enumUnitVariant id index =>
    simp only [headCtor, reduceCtorEq, false_or] at head
    subst ctor
    simp only [specializePattern, if_true, Option.some.injEq] at found
    exact found ▸ wildcards
  | enumDataVariant id index fields =>
    simp only [headCtor, reduceCtorEq, false_or] at head
    subst ctor
    simp only [specializePattern, if_true, Option.some.injEq] at found
    simp only [WellTyped] at typed
    obtain ⟨_, variant, variantFound, fieldsTyped⟩ := typed
    simpa [← found, variantFields_eq variantFound] using fieldsTyped
  | enumStructVariant id index fields =>
    simp only [headCtor, reduceCtorEq, false_or] at head
    subst ctor
    simp only [specializePattern, if_true, Option.some.injEq] at found
    simp only [WellTyped] at typed
    obtain ⟨_, variant, variantFound, fieldsTyped⟩ := typed
    simpa [← found, variantFields_eq variantFound] using wellTypedAll_of_fields fieldsTyped

theorem matches_iff_specialize (valueTyped : HasType pool value ty) (typed : WellTyped pool pattern ty) :
    pattern.Matches value ↔ ∃ subs,
      specializePattern (valueCtor pool value) (ctorArity pool (valueCtor pool value)) pattern =
        some subs ∧ MatchesAll subs (valueFields value) := by
  obtain ⟨ofType, fieldsTyped⟩ := valueCtor_ofType valueTyped
  have count := haveTypes_length fieldsTyped
  rw [ctorSubTypes_length ofType] at count
  have wildcards := matchesAll_wildcards (valueFields value)
  rw [count] at wildcards
  induction pattern using AirPattern.headInduction with
  | nested name isMut pattern ih =>
    simpa [Matches, MatchesInner, specializePattern, specializeInner] using ih typed
  | wildcard | bare =>
    simpa [MatchesInner, specializeInner] using wildcards
  | int n | bool n =>
    cases value with
    | struct id fields =>
      cases shape : (pool.structDef id).isTupleShaped <;> simp [valueCtor, shape]
    | _ => simp [valueCtor, eq_comm (a := n)]
  | enumVariant id index | enumUnitVariant id index =>
    obtain ⟨rfl, _⟩ := typed
    cases value with
    | enum valueId valueIndex fields =>
      simp only [HasType, Ty.enum.injEq] at valueTyped
      simpa [valueCtor, valueTyped.1] using fun _ => wildcards
    | struct => simp at valueTyped
    | _ => simp at valueTyped
  | enumDataVariant id index fields =>
    simp only [WellTyped] at typed
    obtain ⟨rfl, _⟩ := typed
    cases value with
    | enum valueId valueIndex values =>
      simp only [HasType, Ty.enum.injEq] at valueTyped
      simp [valueCtor, valueTyped.1]
    | struct => simp at valueTyped
    | _ => simp at valueTyped
  | enumStructVariant id index fields =>
    simp only [WellTyped] at typed
    obtain ⟨rfl, _, variantFound, patternsTyped⟩ := typed
    cases value with
    | enum valueId valueIndex values =>
      simp only [HasType, Ty.enum.injEq] at valueTyped
      obtain ⟨rfl, valueVariant, valueFound, valuesTyped⟩ := valueTyped
      by_cases same : index = valueIndex
      · subst valueIndex
        rw [variantFound, Option.some.injEq] at valueFound
        subst valueVariant
        simpa [valueCtor] using matches_fields_iff patternsTyped (haveTypes_length valuesTyped)
      · simp [valueCtor, same]
    | struct => simp at valueTyped
    | _ => simp at valueTyped
  | tuple elems =>
    simp only [WellTyped] at typed
    obtain ⟨id, rfl, shape, elemsTyped⟩ := typed
    cases value with
    | struct valueId values =>
      simp only [HasType, Ty.struct.injEq] at valueTyped
      obtain ⟨rfl, valuesTyped⟩ := valueTyped
      have widths := wellTypedAll_length elemsTyped
      rw [← haveTypes_length valuesTyped] at widths
      simp [valueCtor, shape, widths]
    | enum => simp at valueTyped
    | _ => simp at valueTyped
  | struct id fields =>
    simp only [WellTyped] at typed
    obtain ⟨rfl, shape, patternsTyped⟩ := typed
    cases value with
    | struct valueId values =>
      simp only [HasType, Ty.struct.injEq] at valueTyped
      obtain ⟨rfl, valuesTyped⟩ := valueTyped
      simpa [valueCtor, shape] using matches_fields_iff patternsTyped (haveTypes_length valuesTyped)
    | enum => simp at valueTyped
    | _ => simp at valueTyped

theorem specializeRow_typed (typed : WellTypedAll pool row (ty :: tys)) (ofType : CtorOf pool ty ctor)
    (found : specializeRow ctor (ctorArity pool ctor) row = some next) :
    WellTypedAll pool next (ctorSubTypes pool ty ctor ++ tys) := by
  cases row with
  | nil => simp [specializeRow] at found
  | cons head tail =>
    simp only [specializeRow, Option.map_eq_some_iff] at found
    obtain ⟨_, headFound, rfl⟩ := found
    exact wellTypedAll_append (specializePattern_typed typed.1 ofType headFound) typed.2

theorem matchesAll_iff_specializeRow (valueTyped : HasType pool value ty)
    (typed : WellTypedAll pool row (ty :: tys)) :
    MatchesAll row (value :: values) ↔ ∃ next,
      specializeRow (valueCtor pool value) (ctorArity pool (valueCtor pool value)) row =
        some next ∧ MatchesAll next (valueFields value ++ values) := by
  cases row with
  | nil => simp at typed
  | cons head tail =>
    obtain ⟨ofType, fieldsTyped⟩ := valueCtor_ofType valueTyped
    simp only [MatchesAll, matches_iff_specialize valueTyped typed.1, specializeRow, Option.map_eq_some_iff]
    constructor
    · rintro ⟨⟨subs, found, subsMatch⟩, tailMatch⟩
      exact ⟨subs ++ tail, ⟨subs, found, rfl⟩,
        (matchesAll_append (matchesAll_length subsMatch)).mpr ⟨subsMatch, tailMatch⟩⟩
    · rintro ⟨_, ⟨subs, found, rfl⟩, matched⟩
      have widths := wellTypedAll_length (specializePattern_typed typed.1 ofType found)
      rw [← haveTypes_length fieldsTyped] at widths
      have parts := (matchesAll_append widths).mp matched
      exact ⟨⟨subs, found, parts.1⟩, parts.2⟩

theorem defaultRow_typed (typed : WellTypedAll pool row (ty :: tys))
    (found : defaultRow row = some next) : WellTypedAll pool next tys := by
  cases row with
  | nil => simp [defaultRow] at found
  | cons head tail =>
    simp only [defaultRow, Option.ite_none_right_eq_some, Option.some.injEq] at found
    exact found.2 ▸ typed.2

theorem matchesAll_of_defaultRow (value : Value) (found : defaultRow row = some next)
    (matched : MatchesAll next values) : MatchesAll row (value :: values) := by
  cases row with
  | nil => simp [defaultRow] at found
  | cons head tail =>
    simp only [defaultRow, Option.ite_none_right_eq_some, Option.some.injEq] at found
    exact ⟨matches_wildcard found.1 value, found.2 ▸ matched⟩

theorem defaultRow_of_unused {rows : List (List AirPattern)} (member : row ∈ rows)
    (valueTyped : HasType pool value ty) (typed : WellTypedAll pool row (ty :: tys))
    (unused : valueCtor pool value ∉ usedCtors rows) (matched : MatchesAll row (value :: values)) :
    ∃ next, defaultRow row = some next ∧ MatchesAll next values := by
  cases row with
  | nil => simp at matched
  | cons head tail =>
    obtain ⟨ofType, _⟩ := valueCtor_ofType valueTyped
    obtain ⟨_, found, _⟩ := (matches_iff_specialize valueTyped typed.1).mp matched.1
    rcases specializePattern_head typed.1 ofType found with blank | named
    · exact ⟨tail, by simp [defaultRow, blank], matched.2⟩
    · refine absurd (mem_usedCtors.mpr ⟨?_, head, tail, member, named⟩) unused
      intro wild
      simp [wild] at ofType

structure MatrixTyped (pool : TypeInternPool) (rows : List (List AirPattern))
    (query : List AirPattern) (tys : List Ty) : Prop where
  columns : ∀ ty ∈ tys, ScrutineeType pool ty
  rows : ∀ row ∈ rows, WellTypedAll pool row tys
  query : WellTypedAll pool query tys

def Uncovered (pool : TypeInternPool) (rows : List (List AirPattern)) (query : List AirPattern)
    (tys : List Ty) : Prop :=
  ∃ values, HaveTypes pool values tys ∧ MatchesAll query values ∧ ∀ row ∈ rows, ¬MatchesAll row values

def Missed (pool : TypeInternPool) (rows : List (List AirPattern)) (query : List AirPattern)
    (tys : List Ty) (values : List Value) : Prop :=
  HaveTypes pool values tys ∧ MatchesAll query values ∧ ∀ row ∈ rows, ¬MatchesAll row values

def UncoveredBy (pool : TypeInternPool) (rows : List (List AirPattern)) (query : List AirPattern)
    (ty : Ty) (tys : List Ty) (ctor : Ctor) : Prop :=
  ∃ value values, HasType pool value ty ∧ valueCtor pool value = ctor ∧
    HaveTypes pool values tys ∧ MatchesAll query (value :: values) ∧
    ∀ row ∈ rows, ¬MatchesAll row (value :: values)

section Matrix

variable {pool : TypeInternPool} {rows : List (List AirPattern)} {qHead : AirPattern}
  {qTail : List AirPattern} {ty : Ty} {tys : List Ty}

variable {ctor : Ctor}
variable {subs : List AirPattern}

section

variable (typed : MatrixTyped pool rows (qHead :: qTail) (ty :: tys))
include typed

theorem MatrixTyped.queryHead : WellTyped pool qHead ty := by
  have query := typed.query
  exact query.1

theorem MatrixTyped.queryTail : WellTypedAll pool qTail tys := by
  have query := typed.query
  exact query.2

theorem MatrixTyped.default : MatrixTyped pool (defaultRows rows) qTail tys where
  columns part member := typed.columns part (by simp [member])
  rows row member := by
    obtain ⟨source, sourceMember, found⟩ := List.mem_filterMap.mp member
    exact defaultRow_typed (typed.rows source sourceMember) found
  query := typed.queryTail

theorem MatrixTyped.specialize (ofType : CtorOf pool ty ctor)
    (found : specializePattern ctor (ctorArity pool ctor) qHead = some subs) :
    MatrixTyped pool (specializeRows rows ctor (ctorArity pool ctor)) (subs ++ qTail)
      (ctorSubTypes pool ty ctor ++ tys) where
  columns part member := by
    rcases List.mem_append.mp member with sub | rest
    · exact (typed.columns ty (by simp)).component (ctorSubTypes_component ofType sub)
    · exact typed.columns part (by simp [rest])
  rows row member := by
    obtain ⟨source, sourceMember, rowFound⟩ := List.mem_filterMap.mp member
    exact specializeRow_typed (typed.rows source sourceMember) ofType rowFound
  query :=
    wellTypedAll_append (specializePattern_typed typed.queryHead ofType found) typed.queryTail

end

theorem uncovered_iff_exists_ctor {query : List AirPattern} : Uncovered pool rows query (ty :: tys) ↔
      ∃ ctor, CtorOf pool ty ctor ∧ UncoveredBy pool rows query ty tys ctor := by
  constructor
  · rintro ⟨values, valuesTyped, queryMatch, missed⟩
    cases values with
    | nil => simp at valuesTyped
    | cons value values =>
      exact ⟨valueCtor pool value, (valueCtor_ofType valuesTyped.1).1, value, values,
        valuesTyped.1, rfl, valuesTyped.2, queryMatch, missed⟩
  · rintro ⟨ctor, _, value, values, valueTyped, _, valuesTyped, queryMatch, missed⟩
    refine ⟨value :: values, ?_, queryMatch, missed⟩
    exact ⟨valueTyped, valuesTyped⟩

section

variable (typed : MatrixTyped pool rows (qHead :: qTail) (ty :: tys))
include typed

theorem missed_iff_specialize (valueTyped : HasType pool value ty)
    (found : specializePattern (valueCtor pool value) (ctorArity pool (valueCtor pool value)) qHead = some subs) :
    Missed pool (specializeRows rows (valueCtor pool value) (ctorArity pool (valueCtor pool value)))
        (subs ++ qTail) (ctorSubTypes pool ty (valueCtor pool value) ++ tys)
        (valueFields value ++ values) ↔
      Missed pool rows (qHead :: qTail) (ty :: tys) (value :: values) := by
  obtain ⟨_, fieldsTyped⟩ := valueCtor_ofType valueTyped
  have queryFound : specializeRow (valueCtor pool value) (ctorArity pool (valueCtor pool value))
      (qHead :: qTail) = some (subs ++ qTail) := by simp [specializeRow, found]
  constructor
  · rintro ⟨allTyped, queryMatch, missed⟩
    have valuesTyped := ((haveTypes_append (haveTypes_length fieldsTyped)).mp allTyped).2
    refine ⟨by simpa only using ⟨valueTyped, valuesTyped⟩, ?_, ?_⟩
    · exact (matchesAll_iff_specializeRow valueTyped typed.query).mpr ⟨_, queryFound, queryMatch⟩
    · intro row member matched
      obtain ⟨next, rowFound, nextMatch⟩ :=
        (matchesAll_iff_specializeRow valueTyped (typed.rows row member)).mp matched
      exact missed next (List.mem_filterMap.mpr ⟨row, member, rowFound⟩) nextMatch
  · rintro ⟨allTyped, queryMatch, missed⟩
    refine ⟨(haveTypes_append (haveTypes_length fieldsTyped)).mpr ⟨fieldsTyped, allTyped.2⟩, ?_, ?_⟩
    · obtain ⟨next, nextFound, nextMatch⟩ :=
        (matchesAll_iff_specializeRow valueTyped typed.query).mp queryMatch
      rw [queryFound, Option.some.injEq] at nextFound
      exact nextFound ▸ nextMatch
    · intro next member nextMatch
      obtain ⟨row, rowMember, rowFound⟩ := List.mem_filterMap.mp member
      exact missed row rowMember ((matchesAll_iff_specializeRow valueTyped
        (typed.rows row rowMember)).mpr ⟨next, rowFound, nextMatch⟩)

theorem uncoveredBy_iff_specialize (ofType : CtorOf pool ty ctor)
    (found : specializePattern ctor (ctorArity pool ctor) qHead = some subs) :
    Uncovered pool (specializeRows rows ctor (ctorArity pool ctor)) (subs ++ qTail)
        (ctorSubTypes pool ty ctor ++ tys) ↔
      UncoveredBy pool rows (qHead :: qTail) ty tys ctor := by
  constructor
  · rintro ⟨_, missed⟩
    obtain ⟨_, values, rfl, fieldsTyped, valuesTyped⟩ := haveTypes_split missed.1
    obtain ⟨value, valueTyped, rfl, rfl⟩ := exists_value_of_ctor ofType fieldsTyped
    exact ⟨value, values, valueTyped, rfl, valuesTyped, ((missed_iff_specialize typed valueTyped found).mp missed).2⟩
  · rintro ⟨value, values, valueTyped, rfl, valuesTyped, missed⟩
    have allTyped : HaveTypes pool (value :: values) (ty :: tys) := by
      simpa only using ⟨valueTyped, valuesTyped⟩
    exact ⟨_, (missed_iff_specialize typed valueTyped found).mpr ⟨allTyped, missed⟩⟩

theorem uncoveredBy_head (proper : headCtor qHead ≠ .wildcard) (ofType : CtorOf pool ty ctor)
    (uncovered : UncoveredBy pool rows (qHead :: qTail) ty tys ctor) : headCtor qHead = ctor := by
  obtain ⟨_, _, valueTyped, rfl, _, queryMatch, _⟩ := uncovered
  obtain ⟨_, found, _⟩ := (matches_iff_specialize valueTyped typed.queryHead).mp queryMatch.1
  exact (specializePattern_head typed.queryHead ofType found).resolve_left proper

end

theorem uncovered_default_of_uncovered (uncovered : Uncovered pool rows (qHead :: qTail) (ty :: tys)) :
    Uncovered pool (defaultRows rows) qTail tys := by
  obtain ⟨values, valuesTyped, queryMatch, missed⟩ := uncovered
  cases values with
  | nil => simp at valuesTyped
  | cons value values =>
    refine ⟨values, valuesTyped.2, queryMatch.2, ?_⟩
    intro _ member nextMatch
    obtain ⟨row, rowMember, found⟩ := List.mem_filterMap.mp member
    exact missed row rowMember (matchesAll_of_defaultRow value found nextMatch)

theorem exists_value (typed : MatrixTyped pool rows (qHead :: qTail) (ty :: tys)) (ofType : CtorOf pool ty ctor) :
    ∃ value, HasType pool value ty ∧ valueCtor pool value = ctor := by
  obtain ⟨_, fieldsTyped⟩ := haveTypes_exists fun part member =>
    (typed.columns ty (by simp)).inhabited part (.single (ctorSubTypes_component ofType member))
  obtain ⟨value, valueTyped, isCtor, _⟩ := exists_value_of_ctor ofType fieldsTyped
  exact ⟨value, valueTyped, isCtor⟩

theorem missed_of_default (typed : MatrixTyped pool rows (qHead :: qTail) (ty :: tys))
    (blank : headCtor qHead = .wildcard) (valueTyped : HasType pool value ty)
    (unused : valueCtor pool value ∉ usedCtors rows)
    (missed : Missed pool (defaultRows rows) qTail tys values) :
    Missed pool rows (qHead :: qTail) (ty :: tys) (value :: values) := by
  obtain ⟨valuesTyped, queryMatch, missed⟩ := missed
  refine ⟨by simpa only using ⟨valueTyped, valuesTyped⟩, ?_, ?_⟩
  · exact ⟨matches_wildcard blank value, queryMatch⟩
  · intro row member matched
    obtain ⟨next, found, nextMatch⟩ :=
      defaultRow_of_unused member valueTyped (typed.rows row member) unused matched
    exact missed next (List.mem_filterMap.mpr ⟨row, member, found⟩) nextMatch

end Matrix

variable {ctor : Ctor} {arity : Nat}
variable {pool : TypeInternPool} {ty : Ty}

theorem exists_unused_literal (rows : List (List AirPattern)) : ∃ n, Ctor.int n ∉ usedCtors rows := by
  obtain ⟨n, fresh⟩ := Infinite.exists_notMem_finset ((usedCtors rows).filterMap fun ctor =>
    match ctor with
    | .int n => some n
    | _ => none).toFinset
  refine ⟨n, fun used => fresh ?_⟩
  rw [List.mem_toFinset, List.mem_filterMap]
  exact ⟨.int n, used, rfl⟩

@[simp] theorem witnesses_ofWitnesses (rows : List (List AirPattern)) :
    (Usefulness.ofWitnesses rows).witnesses = rows := by
  cases rows <;> rfl

@[simp] theorem witnesses_map (transform : List AirPattern → List AirPattern) (usefulness : Usefulness) :
    (usefulness.map transform).witnesses = usefulness.witnesses.map transform := by
  cases usefulness <;> rfl

theorem foldWitness_eq_some {witness folded : List AirPattern}
    (found : foldWitness pool ctor arity witness = some folded) :
    folded = buildWitness pool ctor (witness.take arity) :: witness.drop arity := by
  rw [foldWitness, Option.ite_none_left_eq_some] at found
  exact (Option.some.inj found.2).symm

theorem wellTypedFields_zipIdx : ∀ {position : Nat}
    {subs : List AirPattern} {tys : List Ty}, WellTypedAll pool subs tys →
    WellTypedFields pool position ((subs.zipIdx position).map fun (sub, index) => (index, sub)) tys
  | _, [], [], _ => by simp
  | position, _ :: subs, _ :: tys, typed => by
      simp only [List.zipIdx_cons, List.map_cons, WellTypedFields]
      exact ⟨trivial, typed.1, wellTypedFields_zipIdx typed.2⟩
  | _, [], _ :: _, typed => by simp at typed
  | _, _ :: _, [], typed => by simp at typed

theorem buildWitness_typed (ofType : CtorOf pool ty ctor)
    (typed : WellTypedAll pool subs (ctorSubTypes pool ty ctor)) :
    WellTyped pool (buildWitness pool ctor subs) ty := by
  cases ctor with
  | wildcard => exact ofType.elim
  | int n | bool b => simpa [buildWitness] using ofType
  | enumVariant id index =>
    obtain ⟨rfl, bound⟩ := ofType
    have found := List.getElem?_eq_getElem bound
    simp only [ctorSubTypes, variantFields_eq found] at typed
    simp only [buildWitness]
    split
    · simpa using bound
    · simp only [WellTyped]
      exact ⟨trivial, _, found, typed⟩
  | tuple arity =>
    obtain ⟨id, rfl, shape, rfl⟩ := ofType
    exact ⟨id, rfl, shape, typed⟩
  | struct id =>
    obtain ⟨rfl, shape⟩ := ofType
    simp only [ctorSubTypes, Ty.asStruct] at typed
    have count := wellTypedAll_length typed
    rw [fieldTypes_length] at count
    simp only [buildWitness, WellTyped, ← count, List.take_of_length_le (Nat.le_of_eq List.length_zipIdx)]
    exact ⟨trivial, shape, wellTypedFields_zipIdx typed⟩

theorem buildWitness_matches (valueTyped : HasType pool value ty)
    (typed : WellTypedAll pool subs (ctorSubTypes pool ty (valueCtor pool value)))
    (matched : MatchesAll subs (valueFields value)) :
    (buildWitness pool (valueCtor pool value) subs).Matches value := by
  have count := matchesAll_length matched
  cases value with
  | int n => simp [valueCtor, buildWitness]
  | bool b => simp [valueCtor, buildWitness]
  | enum id index fields =>
    simp only [valueCtor, buildWitness]
    split
    · simp
    · simpa using matched
  | struct id fields =>
    obtain ⟨rfl, fieldsTyped⟩ := valueTyped
    simp only [valueFields] at matched count
    cases shape : (pool.structDef id).isTupleShaped
    · simp only [valueCtor, shape, Bool.false_eq_true, if_false, ctorSubTypes, Ty.asStruct] at typed ⊢
      have lengths := haveTypes_length fieldsTyped
      have all : subs.length = (pool.structDef id).fields.length := by
        rw [count, lengths, fieldTypes_length]
      simp only [buildWitness, Matches, ← all, List.take_of_length_le (Nat.le_of_eq List.length_zipIdx)]
      refine ⟨trivial, (matches_fields_iff (wellTypedFields_zipIdx typed) lengths).mpr ?_⟩
      simpa [List.map_map, Function.comp_def] using matched
    · simpa [valueCtor, shape, buildWitness] using matched

/-- A witness row fits the column types and matches values that only the query matches. -/
def Genuine (pool : TypeInternPool) (rows : List (List AirPattern)) (query : List AirPattern)
    (tys : List Ty) (witness : List AirPattern) : Prop :=
  WellTypedAll pool witness tys ∧ ∃ values, Missed pool rows query tys values ∧ MatchesAll witness values

section Genuine

variable {pool : TypeInternPool} {rows : List (List AirPattern)} {qHead : AirPattern}
  {qTail witness folded : List AirPattern} {ty : Ty} {tys : List Ty}

theorem Genuine.fold (typed : MatrixTyped pool rows (qHead :: qTail) (ty :: tys)) (ofType : CtorOf pool ty ctor)
    (queryFound : specializePattern ctor (ctorArity pool ctor) qHead = some subs)
    (genuine : Genuine pool (specializeRows rows ctor (ctorArity pool ctor)) (subs ++ qTail)
      (ctorSubTypes pool ty ctor ++ tys) witness)
    (found : foldWitness pool ctor (ctorArity pool ctor) witness = some folded) :
    Genuine pool rows (qHead :: qTail) (ty :: tys) folded := by
  obtain ⟨witnessTyped, _, missed, matched⟩ := genuine
  obtain ⟨_, _, rfl, frontTyped, backTyped⟩ := wellTypedAll_split witnessTyped
  obtain ⟨_, values, rfl, fieldsTyped, _⟩ := haveTypes_split missed.1
  have width := wellTypedAll_length frontTyped
  have sameWidth := width.trans (haveTypes_length fieldsTyped).symm
  obtain ⟨frontMatch, backMatch⟩ := (matchesAll_append sameWidth).mp matched
  obtain ⟨value, valueTyped, rfl, rfl⟩ := exists_value_of_ctor ofType fieldsTyped
  rw [foldWitness_eq_some found, ← ctorSubTypes_length ofType, ← width, List.take_left, List.drop_left]
  refine ⟨?_, value :: values, (missed_iff_specialize typed valueTyped queryFound).mp missed, ?_⟩
  · exact ⟨buildWitness_typed ofType frontTyped, backTyped⟩
  · exact ⟨buildWitness_matches valueTyped frontTyped frontMatch, backMatch⟩

theorem Genuine.ofDefault (typed : MatrixTyped pool rows (qHead :: qTail) (ty :: tys))
    (blank : headCtor qHead = .wildcard) (ofType : CtorOf pool ty ctor)
    (unused : ctor ∉ usedCtors rows) (genuine : Genuine pool (defaultRows rows) qTail tys witness) :
    Genuine pool rows (qHead :: qTail) (ty :: tys) (.wildcard :: witness) ∧
      Genuine pool rows (qHead :: qTail) (ty :: tys)
        (buildWitness pool ctor (List.replicate (ctorArity pool ctor) .wildcard) :: witness) := by
  obtain ⟨witnessTyped, _, missed, matched⟩ := genuine
  obtain ⟨value, valueTyped, rfl⟩ := exists_value typed ofType
  have here := missed_of_default typed blank valueTyped unused missed
  have fields := (valueCtor_ofType valueTyped).2
  have wildcards : WellTypedAll pool (List.replicate _ .wildcard) _ :=
    wellTypedAll_wildcards (ctorSubTypes pool ty (valueCtor pool value))
  have wildcardsMatch := matchesAll_wildcards (valueFields value)
  rw [haveTypes_length fields, ctorSubTypes_length ofType] at wildcardsMatch
  rw [ctorSubTypes_length ofType] at wildcards
  refine ⟨⟨?_, _, here, ?_⟩, ?_, _, here, ?_⟩
  · simpa using witnessTyped
  · simpa using matched
  · exact ⟨buildWitness_typed ofType wildcards, witnessTyped⟩
  · exact ⟨buildWitness_matches valueTyped wildcards wildcardsMatch, matched⟩

end Genuine

variable {pool : TypeInternPool} {rows : List (List AirPattern)} {query : List AirPattern} {tys : List Ty}

theorem genuine_of_useful (typed : MatrixTyped pool rows query tys) :
    ∀ witness ∈ (isUseful pool rows query tys).witnesses, Genuine pool rows query tys witness := by
  fun_induction isUseful pool rows query tys with
  | case1 rows tys empty =>
    intro witness member
    have noTypes : tys = [] := List.length_eq_zero_iff.mp (wellTypedAll_length typed.query).symm
    have noRows : rows = [] := by simpa using empty
    subst noTypes noRows
    rw [List.mem_singleton.mp member]
    exact ⟨trivial, [], ⟨trivial, trivial, by simp⟩, trivial⟩
  | case2 | case3 | case6 => simp [Usefulness.witnesses]
  | case4 rows qHead qTail headTy restTys blank signature ih =>
    intro witness member
    rw [witnesses_map] at member
    obtain ⟨inner, innerMember, rfl⟩ := List.mem_map.mp member
    have integer := isInteger_of_no_signature ((typed.columns headTy (by simp)).matchable headTy .refl) signature
    obtain ⟨n, unused⟩ := exists_unused_literal rows
    have ofType : CtorOf pool headTy (.int n) := integer
    exact ((ih typed.default inner innerMember).ofDefault typed blank ofType unused).1
  | case5 rows qHead qTail headTy restTys blank ctors signature missing complete ih =>
    intro witness member
    rw [witnesses_ofWitnesses] at member
    simp only [List.mem_flatMap, List.mem_attach, true_and, Subtype.exists, List.mem_filterMap] at member
    obtain ⟨ctor, listed, inner, innerMember, folded⟩ := member
    have ofType := (mem_typeSignature signature ctor).mp listed
    have found := specializePattern_wildcard blank ctor (ctorArity pool ctor)
    have genuine := ih ctor listed
    simp only [found, Option.getD_some] at genuine innerMember
    exact (genuine (typed.specialize ofType found) inner innerMember).fold typed ofType found folded
  | case7 rows qHead qTail headTy restTys blank ctors signature missing incomplete witnesses outcome ih =>
      intro witness member
      obtain ⟨ctor, isMissing, member⟩ := List.mem_flatMap.mp member
      obtain ⟨inner, innerMember, rfl⟩ := List.mem_map.mp member
      obtain ⟨listed, absent⟩ := List.mem_filter.mp isMissing
      have unused : ctor ∉ usedCtors rows := by simpa using absent
      have ofType := (mem_typeSignature signature ctor).mp listed
      rw [outcome] at ih
      exact ((ih typed.default inner innerMember).ofDefault typed blank ofType unused).2
  | case8 rows qHead qTail headTy restTys proper ctor arity specializedQuery ih =>
    intro witness member
    rw [witnesses_ofWitnesses] at member
    obtain ⟨inner, innerMember, folded⟩ := List.mem_filterMap.mp member
    have ofType := headCtor_ofType typed.queryHead proper
    obtain ⟨_, found⟩ := specializePattern_self qHead arity
    simp only [specializedQuery, ctor, arity, found, Option.getD_some] at ih innerMember
    exact (ih (typed.specialize ofType found) inner innerMember).fold typed ofType found folded

theorem foldWitness_isSome {witness : List AirPattern} {ty : Ty} (ofType : CtorOf pool ty ctor)
    (genuine : Genuine pool rows query (ctorSubTypes pool ty ctor ++ tys) witness) :
    ∃ folded, foldWitness pool ctor (ctorArity pool ctor) witness = some folded := by
  have width := wellTypedAll_length genuine.1
  rw [List.length_append, ctorSubTypes_length ofType] at width
  rw [foldWitness, if_neg (by omega)]
  exact ⟨_, rfl⟩

theorem useful_of_uncovered (typed : MatrixTyped pool rows query tys) (uncovered : Uncovered pool rows query tys) :
    (isUseful pool rows query tys).witnesses ≠ [] := by
  fun_induction isUseful pool rows query tys with
  | case1 => simp [Usefulness.witnesses]
  | case2 rows tys nonempty =>
    have noTypes : tys = [] := List.length_eq_zero_iff.mp (wellTypedAll_length typed.query).symm
    subst noTypes
    obtain ⟨row, member⟩ := List.exists_mem_of_ne_nil rows (by simpa using nonempty)
    have noPatterns : row = [] :=
      List.length_eq_zero_iff.mp (wellTypedAll_length (typed.rows row member))
    subst noPatterns
    obtain ⟨_, _, queryMatch, missed⟩ := uncovered
    exact absurd queryMatch (missed [] member)
  | case3 rows qHead qTail => exact absurd (wellTypedAll_length typed.query) (by simp)
  | case4 rows qHead qTail headTy restTys blank signature ih =>
    rw [witnesses_map, ne_eq, List.map_eq_nil_iff]
    exact ih typed.default (uncovered_default_of_uncovered uncovered)
  | case5 rows qHead qTail headTy restTys blank ctors signature missing complete ih =>
    obtain ⟨ctor, ofType, uncovered⟩ := uncovered_iff_exists_ctor.1 uncovered
    have listed := (mem_typeSignature signature ctor).mpr ofType
    have found := specializePattern_wildcard blank ctor (ctorArity pool ctor)
    have inner := typed.specialize ofType found
    have useful := ih ctor listed
    simp only [found, Option.getD_some] at useful
    obtain ⟨witness, member⟩ := List.exists_mem_of_ne_nil _
      (useful inner ((uncoveredBy_iff_specialize typed ofType found).mpr uncovered))
    obtain ⟨folded, isFolded⟩ :=
      foldWitness_isSome ofType (genuine_of_useful inner witness member)
    rw [witnesses_ofWitnesses]
    have reported := List.mem_filterMap.mpr ⟨witness, member, isFolded⟩
    refine List.ne_nil_of_mem (a := folded) (List.mem_flatMap.mpr ⟨⟨ctor, listed⟩, List.mem_attach _ _, ?_⟩)
    simpa [found, Option.getD_some] using reported
  | case6 rows qHead qTail headTy restTys blank ctors signature missing incomplete outcome ih =>
    have useful := ih typed.default (uncovered_default_of_uncovered uncovered)
    rw [outcome] at useful
    exact absurd rfl useful
  | case7 rows qHead qTail headTy restTys blank ctors signature missing incomplete witnesses outcome ih =>
      have useful := ih typed.default (uncovered_default_of_uncovered uncovered)
      rw [outcome] at useful
      obtain ⟨witness, member⟩ := List.exists_mem_of_ne_nil _ useful
      obtain ⟨ctor, isMissing⟩ := List.exists_mem_of_ne_nil missing incomplete
      exact List.ne_nil_of_mem (List.mem_flatMap.mpr ⟨ctor, isMissing, List.mem_map_of_mem member⟩)
  | case8 rows qHead qTail headTy restTys proper ctor arity specializedQuery ih =>
    obtain ⟨_, found⟩ := specializePattern_self qHead arity
    obtain ⟨_, ofType, uncovered⟩ := uncovered_iff_exists_ctor.1 uncovered
    obtain rfl := uncoveredBy_head typed proper ofType uncovered
    have inner := typed.specialize ofType found
    simp only [specializedQuery, ctor, arity, found, Option.getD_some] at ih ⊢
    obtain ⟨witness, member⟩ := List.exists_mem_of_ne_nil _
      (ih inner ((uncoveredBy_iff_specialize typed ofType found).mpr uncovered))
    obtain ⟨folded, isFolded⟩ :=
      foldWitness_isSome ofType (genuine_of_useful inner witness member)
    rw [witnesses_ofWitnesses]
    exact List.ne_nil_of_mem (List.mem_filterMap.mpr ⟨witness, member, isFolded⟩)

section Column

variable {pool : TypeInternPool} {arms : List AirPattern} {scrutineeType : Ty}

theorem column_typed (scrutinee : ScrutineeType pool scrutineeType)
    (typed : ∀ arm ∈ arms, WellTyped pool arm scrutineeType)
    (query : WellTyped pool pattern scrutineeType) :
    MatrixTyped pool (arms.map ([·])) [pattern] [scrutineeType] where
  columns := by simpa using scrutinee
  rows := by
    intro _ member
    obtain ⟨arm, armMember, rfl⟩ := List.mem_map.mp member
    simpa using typed arm armMember
  query := by simpa using query

theorem missed_column_iff : Missed pool (arms.map ([·])) [pattern] [scrutineeType] [value] ↔
    HasType pool value scrutineeType ∧ pattern.Matches value ∧ ∀ arm ∈ arms, ¬ arm.Matches value := by
  simp [Missed]

theorem exists_of_missed {values : List Value}
    (missed : Missed pool (arms.map ([·])) [pattern] [scrutineeType] values) :
    ∃ value, values = [value] :=
  List.length_eq_one_iff.mp (haveTypes_length missed.1)

theorem column_useful_iff (scrutinee : ScrutineeType pool scrutineeType)
    (typed : ∀ arm ∈ arms, WellTyped pool arm scrutineeType)
    (query : WellTyped pool pattern scrutineeType) :
    (isUseful pool (arms.map ([·])) [pattern] [scrutineeType]).witnesses ≠ [] ↔
      ∃ value, HasType pool value scrutineeType ∧ pattern.Matches value ∧ ∀ arm ∈ arms, ¬ arm.Matches value := by
  have matrix := column_typed scrutinee typed query
  constructor
  · intro useful
    obtain ⟨witness, member⟩ := List.exists_mem_of_ne_nil _ useful
    obtain ⟨_, _, missed, _⟩ := genuine_of_useful matrix witness member
    obtain ⟨value, rfl⟩ := exists_of_missed missed
    exact ⟨value, missed_column_iff.1 missed⟩
  · rintro ⟨value, missed⟩
    exact useful_of_uncovered matrix ⟨[value], missed_column_iff.2 missed⟩

theorem mem_exhaustivenessWitnesses (scrutinee : ScrutineeType pool scrutineeType)
    (typed : ∀ arm ∈ arms, WellTyped pool arm scrutineeType) {witness : AirPattern} :
    witness ∈ exhaustivenessWitnesses pool arms scrutineeType ↔
      [witness] ∈ (isUseful pool (arms.map ([·])) [.wildcard] [scrutineeType]).witnesses := by
  have matrix : MatrixTyped pool (arms.map ([·])) [.wildcard] [scrutineeType] :=
    column_typed scrutinee typed (by simp)
  rw [exhaustivenessWitnesses, List.mem_filterMap]
  constructor
  · rintro ⟨row, member, last⟩
    obtain ⟨_, rfl⟩ :=
      List.length_eq_one_iff.mp (wellTypedAll_length (genuine_of_useful matrix row member).1)
    cases last
    exact member
  · intro member
    exact ⟨[witness], member, rfl⟩

theorem exhaustivenessWitnesses_eq_nil (scrutinee : ScrutineeType pool scrutineeType)
    (typed : ∀ arm ∈ arms, WellTyped pool arm scrutineeType) :
    exhaustivenessWitnesses pool arms scrutineeType = [] ↔
      (isUseful pool (arms.map ([·])) [.wildcard] [scrutineeType]).witnesses = [] := by
  have blank : WellTyped pool .wildcard scrutineeType := by simp
  constructor
  · intro empty
    refine List.eq_nil_iff_forall_not_mem.mpr fun row member => ?_
    obtain ⟨_, rfl⟩ := List.length_eq_one_iff.mp
      (wellTypedAll_length (genuine_of_useful (column_typed scrutinee typed blank) row member).1)
    have listed := (mem_exhaustivenessWitnesses scrutinee typed).mpr member
    rw [empty] at listed
    exact List.not_mem_nil listed
  · intro empty
    simp [exhaustivenessWitnesses, empty]

end Column

/-- An arm list gets no missing-pattern witness exactly when its arms cover the scrutinee type. -/
theorem exhaustivenessWitnesses_eq_nil_iff (pool : TypeInternPool) (arms : List AirPattern)
    (scrutineeType : Ty) (scrutinee : ScrutineeType pool scrutineeType)
    (typed : ∀ arm ∈ arms, WellTyped pool arm scrutineeType) :
    exhaustivenessWitnesses pool arms scrutineeType = [] ↔
      ∀ value, HasType pool value scrutineeType → ∃ arm ∈ arms, arm.Matches value := by
  have blank : WellTyped pool .wildcard scrutineeType := by simp
  rw [exhaustivenessWitnesses_eq_nil scrutinee typed, ← not_iff_not, ← ne_eq, column_useful_iff scrutinee typed blank]
  simp

/-- What is reported as missing fits the scrutinee type and matches a value that no arm does. -/
theorem exhaustivenessWitnesses_genuine (pool : TypeInternPool) (arms : List AirPattern)
    (scrutineeType : Ty) (scrutinee : ScrutineeType pool scrutineeType)
    (typed : ∀ arm ∈ arms, WellTyped pool arm scrutineeType) :
    ∀ witness ∈ exhaustivenessWitnesses pool arms scrutineeType,
      WellTyped pool witness scrutineeType ∧ ∃ value, HasType pool value scrutineeType ∧
        witness.Matches value ∧ ∀ arm ∈ arms, ¬ arm.Matches value := by
  intro witness member
  have blank : WellTyped pool .wildcard scrutineeType := by simp
  obtain ⟨witnessTyped, _, missed, matched⟩ :=
    genuine_of_useful (column_typed scrutinee typed blank) [witness]
      ((mem_exhaustivenessWitnesses scrutinee typed).mp member)
  obtain ⟨value, rfl⟩ := exists_of_missed missed
  obtain ⟨valueTyped, _, none⟩ := missed_column_iff.1 missed
  exact ⟨witnessTyped.1, value, valueTyped, matched.1, none⟩

theorem notUseful_iff {pool : TypeInternPool} {rows : List (List AirPattern)}
    {query : List AirPattern} {tys : List Ty} :
    isUseful pool rows query tys = .notUseful ↔ (isUseful pool rows query tys).witnesses = [] := by
  have ofWitnesses : ∀ found : List (List AirPattern), Usefulness.ofWitnesses found =
      .notUseful ↔ (Usefulness.ofWitnesses found).witnesses = [] := by
    intro found
    cases found <;> simp [Usefulness.ofWitnesses, Usefulness.witnesses]
  fun_induction isUseful pool rows query tys with
  | case1 | case2 | case3 | case6 => simp [Usefulness.witnesses]
  | case4 rows qHead qTail headTy restTys blank signature ih =>
    cases found : isUseful pool (defaultRows rows) qTail restTys with
    | notUseful => simp [Usefulness.map, Usefulness.witnesses]
    | useful inner => simpa [found, Usefulness.map, Usefulness.witnesses] using ih
  | case5 => exact ofWitnesses _
  | case7 rows qHead qTail headTy restTys blank ctors signature missing incomplete witnesses outcome ih =>
      rw [outcome] at ih
      simp only [reduceCtorEq, Usefulness.witnesses, false_iff] at ih ⊢
      obtain ⟨ctor, isMissing⟩ := List.exists_mem_of_ne_nil missing incomplete
      obtain ⟨_, member⟩ := List.exists_mem_of_ne_nil witnesses ih
      exact List.ne_nil_of_mem (List.mem_flatMap.mpr ⟨ctor, isMissing, List.mem_map_of_mem member⟩)
  | case8 => exact ofWitnesses _

theorem armReachabilityFrom_spec {pool : TypeInternPool} {scrutineeType : Ty}
    (scrutinee : ScrutineeType pool scrutineeType) :
    ∀ {arms seen : List AirPattern}, (∀ arm ∈ seen ++ arms, WellTyped pool arm scrutineeType) →
      ∀ {index : Nat} {arm : AirPattern}, arms[index]? = some arm → ∃ reachable,
        (armReachabilityFrom pool scrutineeType (seen.map ([·])) arms)[index]? = some reachable ∧
        (reachable = true ↔ ∃ value, HasType pool value scrutineeType ∧ arm.Matches value ∧
          ∀ earlier ∈ seen ++ arms.take index, ¬ earlier.Matches value)
  | arm :: arms, seen, typed, 0, _, found => by
      cases found
      have useful := column_useful_iff scrutinee (fun earlier member => typed earlier (List.mem_append_left _ member))
        (typed arm (List.mem_append_right _ (.head _)))
      refine ⟨_, rfl, ?_⟩
      rw [List.take_zero, List.append_nil, ← useful, ne_eq, ← notUseful_iff]
      cases isUseful pool (seen.map ([·])) [arm] [scrutineeType] <;> simp
  | arm :: arms, seen, typed, index + 1, later, found => by
      rw [← List.singleton_append, ← List.append_assoc] at typed
      have isLater : arms[index]? = some later := found
      have rest := armReachabilityFrom_spec scrutinee typed isLater
      rwa [List.map_append, List.append_assoc] at rest

/-- An arm is reported as unreachable exactly when the arms before it match all it matches. -/
theorem armReachability_eq_false_iff (pool : TypeInternPool) (arms : List AirPattern)
    (scrutineeType : Ty) (scrutinee : ScrutineeType pool scrutineeType)
    (typed : ∀ arm ∈ arms, WellTyped pool arm scrutineeType) (index : Nat) (arm : AirPattern)
    (found : arms[index]? = some arm) :
    (armReachability pool arms scrutineeType)[index]? = some false ↔
      ∀ value, HasType pool value scrutineeType → arm.Matches value →
        ∃ earlier ∈ arms.take index, earlier.Matches value := by
  obtain ⟨reachable, isReported, isReachable⟩ :=
    @armReachabilityFrom_spec _ _ scrutinee arms [] typed index arm found
  rw [armReachability, show ([] : List (List AirPattern)) = [].map ([·]) from rfl, isReported]
  cases reachable <;> simpa using isReachable

def optionBoolPool : TypeInternPool where
  structDef _ := { name := "S", fields := [] }
  enumDef _ := { name := "OptB", variants := [
    { name := "None", fields := [] }, { name := "Some", fields := [.bool] }] }
  arrayDef _ := (.unit, 0)

attribute [local simp] optionBoolPool

theorem optionBool_scrutinee : ScrutineeType optionBoolPool (.enum 0) := by
  have closed : ∀ part, Relation.ReflTransGen (TypeComponent optionBoolPool) (.enum 0) part →
      part = .enum 0 ∨ part = .bool := by
    intro part path
    induction path with
    | refl => exact .inl rfl
    | tail _ component ih =>
      rcases ih with rfl | rfl
      · cases component with
        | payload variantMember member =>
          simp only [optionBoolPool, List.mem_cons, List.not_mem_nil, or_false] at variantMember
          rcases variantMember with rfl | rfl
          · simp at member
          · exact .inr (by simpa using member)
      · cases component
  constructor
  · intro part path
    rcases closed part path with rfl | rfl <;> simp [Matchable]
  · intro part path
    rcases closed part path with rfl | rfl
    · exact ⟨.enum 0 0 [], by simp⟩
    · exact ⟨.bool true, by simp⟩

theorem exhaustivenessWitnesses_optionBool :
    exhaustivenessWitnesses optionBoolPool [.enumDataVariant 0 1 [.bool true],
      .enumUnitVariant 0 0, .enumDataVariant 0 1 [.bind 0 false none]] (.enum 0) = [] := by
  refine (exhaustivenessWitnesses_eq_nil_iff _ _ _ optionBool_scrutinee ?_).mpr ?_
  · simp [WellTypedInner]
  · intro value typed
    cases value with
    | enum id index fields =>
      simp only [HasType, Ty.enum.injEq] at typed
      obtain ⟨rfl, _, found, fieldsTyped⟩ := typed
      rcases index with _ | _ | index
      · exact ⟨.enumUnitVariant 0 0, by simp, by simp⟩
      · refine ⟨.enumDataVariant 0 1 [.bind 0 false none], by simp, ?_⟩
        simp only [optionBoolPool, List.getElem?_cons_succ, List.getElem?_cons_zero, Option.some.injEq] at found
        obtain ⟨_, rfl⟩ := List.length_eq_one_iff.mp ((haveTypes_length fieldsTyped).trans (by simp [← found]))
        simp [MatchesInner]
      · simp at found
    | struct id fields => simp at typed
    | int n => simp at typed
    | bool b => simp at typed

theorem optionBool_genuine : WellTyped optionBoolPool (.enumDataVariant 0 1 [.wildcard]) (.enum 0) ∧
      ∃ value, HasType optionBoolPool value (.enum 0) ∧ (AirPattern.enumDataVariant 0 1 [.wildcard]).Matches value ∧
        ∀ arm ∈ [AirPattern.enumUnitVariant 0 0], ¬ arm.Matches value :=
  exhaustivenessWitnesses_genuine _ _ _ optionBool_scrutinee (by simp) _ (by
    simp [exhaustivenessWitnesses, isUseful, headCtor, typeSignature, usedCtors, defaultRows, buildWitness,
      ctorArity, Usefulness.witnesses, Ty.asEnum, defaultRow, variantFields, List.range_succ])

theorem optionBool_unreachable :
    (armReachability optionBoolPool [.wildcard, .enumUnitVariant 0 0] (.enum 0))[1]? = some false :=
  (armReachability_eq_false_iff _ _ _ optionBool_scrutinee (by simp) 1 _ rfl).mpr fun value _ _ =>
      ⟨.wildcard, (.head _), by simp⟩

open Classical in
theorem find_kept {pool : TypeInternPool} {scrutineeType : Ty} {value : Value}
    (scrutinee : ScrutineeType pool scrutineeType) (valueTyped : HasType pool value scrutineeType) :
    ∀ {arms seen : List AirPattern}, (∀ arm ∈ seen ++ arms, WellTyped pool arm scrutineeType) →
      (∀ earlier ∈ seen, ¬ earlier.Matches value) →
      (((arms.zip (armReachabilityFrom pool scrutineeType (seen.map ([·])) arms)).filter (·.2)).map (·.1)).find?
        (·.Matches value) = arms.find? (·.Matches value)
  | [], _, _, _ => rfl
  | arm :: arms, seen, typed, missed => by
      have useful := column_useful_iff scrutinee (fun earlier member => typed earlier (List.mem_append_left _ member))
        (typed arm (List.mem_append_right _ (.head _)))
      rw [ne_eq, ← notUseful_iff] at useful
      by_cases taken : arm.Matches value
      · cases reported : isUseful pool (seen.map ([·])) [arm] [scrutineeType] with
        | notUseful => exact absurd reported (useful.mpr ⟨value, valueTyped, taken, missed⟩)
        | useful => simp [armReachabilityFrom, reported, taken]
      · rw [← List.singleton_append, ← List.append_assoc] at typed
        have rest := find_kept scrutinee valueTyped typed (by simpa [or_imp, forall_and, taken] using missed)
        rw [List.map_append] at rest
        cases reported : isUseful pool (seen.map ([·])) [arm] [scrutineeType] <;>
          simpa [armReachabilityFrom, reported, taken] using rest

open Classical in
/-- With all the arms gone that are reported as unreachable every value still takes the arm it took. -/
theorem unreachable_arms_spare (pool : TypeInternPool) (arms : List AirPattern) (scrutineeType : Ty)
    (scrutinee : ScrutineeType pool scrutineeType) (typed : ∀ arm ∈ arms, WellTyped pool arm scrutineeType)
    (value : Value) (valueTyped : HasType pool value scrutineeType) :
    (((arms.zip (armReachability pool arms scrutineeType)).filter (·.2)).map (·.1)).find? (·.Matches value) =
      arms.find? (·.Matches value) :=
  @find_kept _ _ _ scrutinee valueTyped arms [] typed (by simp)

open Classical in
theorem optionBool_spares : let arms := [AirPattern.wildcard, .enumUnitVariant 0 0]
    let reachable := armReachability optionBoolPool arms (.enum 0)
    (((arms.zip reachable).filter (·.2)).map (·.1)).find? (·.Matches (.enum 0 0 [])) = some .wildcard :=
  (unreachable_arms_spare _ _ _ optionBool_scrutinee (by simp) (.enum 0 0 []) (by simp)).trans
    (List.find?_cons_of_pos (decide_eq_true (by simp)))

/-- A literal for every number with eight bits. -/
def octets : List AirPattern := (List.range 256).map fun number => .int (Int.ofNat number)

theorem u8_scrutinee : ScrutineeType optionBoolPool .u8 := by
  have only : ∀ part, Relation.ReflTransGen (TypeComponent optionBoolPool) .u8 part → part = .u8 := by
    intro part path
    rcases path.cases_head with same | ⟨_, component, _⟩
    · exact same.symm
    · cases component
  refine ⟨fun part path => ?_, fun part path => ⟨.int 0, ?_⟩⟩ <;> rw [only part path]
  · simp [Matchable]
  · simp

theorem octets_typed : ∀ arm ∈ octets, WellTyped optionBoolPool arm .u8 := by
  intro arm member
  obtain ⟨_, _, rfl⟩ := List.mem_map.mp member
  simp

theorem octets_cover (number : Int) (nonneg : 0 ≤ number) (small : number < 256) :
    ∃ arm ∈ octets, arm.Matches (.int number) := by
  refine ⟨.int number, List.mem_map.mpr ⟨number.toNat, ?_, ?_⟩, by simp⟩
  · rw [List.mem_range]
    omega
  · rw [Int.ofNat_eq_natCast, Int.toNat_of_nonneg nonneg]

theorem octets_miss (arm : AirPattern) (member : arm ∈ octets) : ¬ arm.Matches (.int 256) := by
  obtain ⟨_, inRange, rfl⟩ := List.mem_map.mp member
  have small := List.mem_range.mp inRange
  simp only [Matches, Int.ofNat_eq_natCast]
  omega

theorem u8_value (number : Int) : HasType optionBoolPool (.int number) .u8 := by
  simp

/-- Something is reported as missing although every number with eight bits has an arm. -/
theorem octets_not_exhaustive : exhaustivenessWitnesses optionBoolPool octets .u8 ≠ [] ∧
    ∀ number : Int, 0 ≤ number → number < 256 → ∃ arm ∈ octets, arm.Matches (.int number) := by
  refine ⟨?_, octets_cover⟩
  rw [ne_eq, exhaustivenessWitnesses_eq_nil u8_scrutinee octets_typed, ← ne_eq,
    column_useful_iff u8_scrutinee octets_typed (by simp)]
  exact ⟨.int 256, u8_value 256, by simp, octets_miss⟩

/-- The last arm is reported as reachable although the others have every number with eight
bits. -/
theorem octets_reach_wildcard :
    (armReachability optionBoolPool (octets ++ [AirPattern.wildcard]) .u8)[256]? = some true ∧
      ∀ number : Int, 0 ≤ number → number < 256 →
        ∃ earlier ∈ (octets ++ [AirPattern.wildcard]).take 256, earlier.Matches (.int number) := by
  have count : octets.length = 256 := by rw [octets, List.length_map, List.length_range]
  have before : (octets ++ [AirPattern.wildcard]).take 256 = octets := by
    rw [← count, List.take_left]
  have last : (octets ++ [AirPattern.wildcard])[256]? = some .wildcard := by
    rw [← count, List.getElem?_concat_length]
  have typed : ∀ arm ∈ octets ++ [.wildcard], WellTyped optionBoolPool arm .u8 := by
    intro arm member
    rcases List.mem_append.mp member with literal | wild
    · exact octets_typed arm literal
    · rw [List.mem_singleton.mp wild]
      simp
  obtain ⟨_, isReported, isReachable⟩ :=
    @armReachabilityFrom_spec _ _ u8_scrutinee (octets ++ [.wildcard]) [] typed 256 .wildcard last
  rw [List.nil_append, before] at isReachable
  have isTrue := isReachable.mpr ⟨.int 256, u8_value 256, by simp, octets_miss⟩
  rw [before]
  exact ⟨isTrue ▸ isReported, octets_cover⟩

end Gruel
