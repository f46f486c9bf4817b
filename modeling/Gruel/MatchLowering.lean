import Mathlib.Tactic
import Gruel.Lib.Parts
import Gruel.Lib.Surviving
import Gruel.MatchPatternsCore

/-!
What it means that a pattern and everything below it fits the parts of the
scrutinee that it is tested against, what the check of an arm says about that, and
for which patterns the lowering and the bindings go through.
-/

namespace Gruel.MatchPatterns

open Parts Surviving

structure Node where
  -- Directly below the pattern of a variant.
  inVariant : Bool
  pattern : RirPattern
  ty : Ty

variable {index count : Nat}

section Positions

variable {α : Type*} {fits : α → Bool}

theorem position_spec {list : List α} (found : position fits list = some index) :
    ∃ a, list[index]? = some a ∧ fits a = true := by
  induction list generalizing index with
  | nil => cases found
  | cons a list ih =>
    rw [position] at found
    split at found
    · cases found
      exact ⟨a, rfl, ‹_›⟩
    · obtain ⟨_, foundBefore, rfl⟩ := Option.map_eq_some_iff.mp found
      obtain ⟨b, present, fitting⟩ := ih foundBefore
      exact ⟨b, present, fitting⟩

theorem position_lt {list : List α} (found : position fits list = some index) : index < list.length := by
  obtain ⟨_, present, _⟩ := position_spec found
  exact (List.getElem?_eq_some_iff.mp present).1

end Positions

section Typing

variable (env : Env)

def namedVariant (ty : Ty) (variant : String) : Option EnumVariantDef := do
  let id ← ty.asEnum
  let index ← findVariant (env.pool.enumDef id) variant
  variantDef env id index

def explicitBindings (bindings : List RirPatternBinding) : List RirPatternBinding :=
  bindings.filter fun binding => !binding.isRest

def explicitFields (fields : List RirStructPatternBinding) : List RirStructPatternBinding :=
  fields.filter fun field => !field.isRest

def dataParts (definition : EnumVariantDef) (bindings : List RirPatternBinding) : List Node :=
  ((explicitBindings bindings).zip definition.fields).filterMap fun (binding, ty) =>
    binding.subPattern.map (⟨true, ·, ty⟩)

def variantFieldType (definition : EnumVariantDef) (name : String) : Option Ty :=
  (findField definition name).bind (definition.fields[·]?)

def fieldParts (definition : EnumVariantDef) (fields : List RirStructPatternBinding) : List Node :=
  (explicitFields fields).filterMap fun field => do
    let ty ← variantFieldType definition field.fieldName
    let sub ← field.binding.subPattern
    return ⟨true, sub, ty⟩

def structFieldType (definition : StructDef) (name : String) : Option Ty :=
  ((structField definition name).bind (definition.fields[·]?)).map StructField.ty

def parts (node : Node) : List Node := match node.pattern with
  | .dataVariant _ _ variant bindings =>
    ((namedVariant env node.ty variant).map (dataParts · bindings)).getD []
  | .structVariant _ _ variant fields =>
    ((namedVariant env node.ty variant).map (fieldParts · fields)).getD []
  | .tuple elems _ =>
    match node.ty.asStruct with
    | none => []
    | some id => (elems.zip (env.pool.structDef id).fieldTypes).map fun (elem, ty) =>
      ⟨false, elem, ty⟩
  | .struct _ _ fields _ =>
    match node.ty.asStruct with
    | none => []
    | some id => fields.filterMap fun field =>
      (structFieldType (env.pool.structDef id) field.fieldName).map (⟨false, field.pattern, ·⟩)
  | .wildcard | .int _ | .bool _ | .path _ _ _ | .ident _ _ | .comptimeUnrollArm _ _ => []

def NamesVariant (module : Option InstRef) (typeName variant : String) (ty : Ty) : Prop :=
  ∃ id, resolveEnum env module typeName = .ok id ∧ ty = .enum id ∧ (findVariant (env.pool.enumDef id) variant).isSome

def ArityFits (count : Nat) (bindings : List RirPatternBinding) : Prop :=
  if bindings.any RirPatternBinding.isRest then
    (∃ rest ∈ bindings.getLast?, rest.isRest = true) ∧ bindings.length - 1 ≤ count
  else bindings.length = count

def FieldsFit (definition : EnumVariantDef) (fields : List RirStructPatternBinding) : Prop :=
  isStructVariant definition = true ∧ ((explicitFields fields).map RirStructPatternBinding.fieldName).Nodup ∧
    (∀ field ∈ explicitFields fields, (findField definition field.fieldName).isSome) ∧
    (fields.any RirStructPatternBinding.isRest = true ∨ fields.length = definition.fieldNames.length)

def NamesStruct (typeName : String) (id : StructId) : Prop := env.structs typeName = some id ∨
    env.structs typeName = none ∧ env.comptimeTypeVars typeName = some (.struct id)

def AggregateFits (node : Node) : Prop := match node.pattern with
  | .tuple elems _ => ∃ id, node.ty = .struct id ∧ (env.pool.structDef id).isTupleShaped = true ∧
      elems.length = (env.pool.structDef id).fields.length
  | .struct _ typeName fields hasRest => ∃ id, node.ty = .struct id ∧ NamesStruct env typeName id ∧
      (fields.map RirStructField.fieldName).Nodup ∧
      (∀ field ∈ fields, (structField (env.pool.structDef id) field.fieldName).isSome) ∧
      (hasRest = true ∨ fields.length = (env.pool.structDef id).fields.length)
  | _ => True

/-- The pattern itself fits the type of the part it is tested against. -/
def Fits (node : Node) : Prop := match node.pattern with
  | .wildcard | .ident _ _ => True
  | .int _ => node.ty.isInteger = true
  | .bool _ => node.ty = .bool
  | .path module typeName variant => NamesVariant env module typeName variant node.ty
  | .dataVariant module typeName variant bindings =>
    NamesVariant env module typeName variant node.ty ∧
      ∀ definition, namedVariant env node.ty variant = some definition → ArityFits definition.fields.length bindings
  | .structVariant module typeName variant fields =>
    NamesVariant env module typeName variant node.ty ∧
      ∀ definition, namedVariant env node.ty variant = some definition → FieldsFit definition fields
  | .tuple _ _ | .struct _ _ _ _ => AggregateFits env node
  | .comptimeUnrollArm _ _ => False

def armNode (scrutinee : Ty) (pattern : RirPattern) : Node :=
  ⟨false, expandedTuplePattern env scrutinee pattern, scrutinee⟩

/-- Every pattern of the arm, at every depth, fits the part it is tested against. -/
def WellTyped (scrutinee : Ty) (pattern : RirPattern) : Prop :=
  Everywhere (parts env) (Fits env) (armNode env scrutinee pattern)

end Typing

section Validation

variable {env : Env} {scrutinee : Ty} {module : Option InstRef} {typeName variant : String}
variable {fields : List RirStructPatternBinding}
variable {resolved : EnumId × Nat} {bindings : List RirPatternBinding}

theorem resolveVariant_ok_iff : resolveVariant env scrutinee module typeName variant = .ok resolved ↔
      resolveEnum env module typeName = .ok resolved.1 ∧ scrutinee = .enum resolved.1 ∧
        findVariant (env.pool.enumDef resolved.1) variant = some resolved.2 := by
  unfold resolveVariant
  cases resolveEnum env module typeName with
  | error _ => simp [bind, Except.bind]
  | ok id =>
    simp only [bind, Except.bind, Except.ok.injEq]
    by_cases same : scrutinee = .enum id
    · rw [if_neg (by simpa using same)]
      cases found : findVariant (env.pool.enumDef id) variant with
      | none =>
        simp only [throw, throwThe, MonadExceptOf.throw, reduceCtorEq, false_iff, not_and]
        rintro rfl _
        simp [found]
      | some index =>
        simp only [pure, Except.pure, Except.ok.injEq]
        constructor
        · rintro rfl
          exact ⟨rfl, same, found⟩
        · rintro ⟨rfl, _, again⟩
          rw [found] at again
          cases again
          rfl
    · rw [if_pos same]
      simp only [throw, throwThe, MonadExceptOf.throw, reduceCtorEq, false_iff, not_and]
      rintro rfl different
      exact absurd different same

theorem namesVariant_iff : NamesVariant env module typeName variant scrutinee ↔
    ∃ resolved, resolveVariant env scrutinee module typeName variant = .ok resolved := by
  constructor
  · rintro ⟨id, named, rfl, found⟩
    obtain ⟨index, found⟩ := Option.isSome_iff_exists.mp found
    exact ⟨(id, index), resolveVariant_ok_iff.2 ⟨named, rfl, found⟩⟩
  · rintro ⟨⟨id, index⟩, resolved⟩
    obtain ⟨named, rfl, found⟩ := resolveVariant_ok_iff.1 resolved
    exact ⟨id, named, rfl, Option.isSome_iff_exists.mpr ⟨index, found⟩⟩

theorem variantDef_of_findVariant {id : EnumId} (found : findVariant (env.pool.enumDef id) variant = some index) :
    ∃ definition, variantDef env id index = some definition := by
  obtain ⟨definition, present, _⟩ := position_spec found
  exact ⟨definition, present⟩

theorem namedVariant_of_resolveVariant (found : resolveVariant env scrutinee module typeName variant = .ok resolved) :
    ∃ definition, variantDef env resolved.1 resolved.2 = some definition ∧
      namedVariant env scrutinee variant = some definition := by
  obtain ⟨_, rfl, place⟩ := resolveVariant_ok_iff.1 found
  obtain ⟨definition, present⟩ := variantDef_of_findVariant place
  exact ⟨definition, present, by simp [namedVariant, Ty.asEnum, place, present]⟩

theorem checkArity_ok_iff : checkArity count bindings = .ok () ↔ ArityFits count bindings := by
  unfold checkArity ArityFits
  split
  · cases last : bindings.getLast? with
    | none => simp
    | some binding =>
      by_cases rest : binding.isRest = true
      · simp [rest]
      · simp [rest]
  · simp

theorem checkFieldNames_ok_iff {structName : String} {definition : EnumVariantDef} {seen : List String} :
    checkFieldNames structName definition seen fields = .ok () ↔
      ((explicitFields fields).map RirStructPatternBinding.fieldName).Nodup ∧
        (∀ field ∈ explicitFields fields, field.fieldName ∉ seen) ∧
        ∀ field ∈ explicitFields fields, (findField definition field.fieldName).isSome := by
  induction fields generalizing seen with
  | nil => simp [checkFieldNames, explicitFields]
  | cons field fields ih =>
    rw [checkFieldNames]
    by_cases rest : field.isRest = true
    · rw [if_pos rest, ih]
      simp [explicitFields, rest]
    · have explicit : explicitFields (field :: fields) = field :: explicitFields fields := by
        simp [explicitFields, rest]
      rw [if_neg rest, explicit]
      by_cases repeated : field.fieldName ∈ seen
      · simp [repeated]
      · rw [if_neg repeated]
        cases found : findField definition field.fieldName with
        | none => simp [found]
        | some index =>
          grind

theorem checkStructVariant_ok_iff {enumName : String} {definition : EnumVariantDef} :
    checkStructVariant enumName definition fields = .ok () ↔ FieldsFit definition fields := by
  unfold checkStructVariant FieldsFit
  by_cases isStruct : isStructVariant definition = true
  · simp only [isStruct, Bool.not_true, Bool.false_eq_true, if_false, bind_eq_ok,
      Unique.exists_iff, PUnit.default_eq_unit, true_and]
    rw [checkFieldNames_ok_iff]
    by_cases rest : fields.any RirStructPatternBinding.isRest = true
    · simp [rest, pure, Except.pure]
    · by_cases count : fields.length = definition.fieldNames.length
      · simp [count, pure, Except.pure]
      · simp [rest, count, throw, throwThe, MonadExceptOf.throw]
  · simp [isStruct, throw, throwThe, MonadExceptOf.throw]

theorem validate_dataVariant {resolved : Option (EnumId × Nat)} :
    validate env scrutinee (.dataVariant module typeName variant bindings) = .ok resolved ↔
      ∃ place definition, resolveVariant env scrutinee module typeName variant = .ok place ∧
        namedVariant env scrutinee variant = some definition ∧
        ArityFits definition.fields.length bindings ∧ resolved = some place := by
  simp only [validate, bind_eq_ok]
  refine exists_congr fun place => ?_
  constructor
  · rintro ⟨found, rest⟩
    obtain ⟨definition, present, same⟩ := namedVariant_of_resolveVariant found
    simp only [present, bind_eq_ok] at rest
    obtain ⟨_, fits, result⟩ := rest
    cases result
    exact ⟨definition, found, same, checkArity_ok_iff.1 fits, rfl⟩
  · rintro ⟨definition, found, same, fits, rfl⟩
    obtain ⟨_, present, again⟩ := namedVariant_of_resolveVariant found
    rw [same] at again
    cases again
    refine ⟨found, ?_⟩
    simp only [present, bind_eq_ok]
    exact ⟨(), checkArity_ok_iff.2 fits, rfl⟩

theorem validate_structVariant {resolved : Option (EnumId × Nat)} :
    validate env scrutinee (.structVariant module typeName variant fields) = .ok resolved ↔
      ∃ place definition, resolveVariant env scrutinee module typeName variant = .ok place ∧
        namedVariant env scrutinee variant = some definition ∧
        FieldsFit definition fields ∧ resolved = some place := by
  simp only [validate, bind_eq_ok]
  refine exists_congr fun place => ?_
  constructor
  · rintro ⟨found, rest⟩
    obtain ⟨definition, present, same⟩ := namedVariant_of_resolveVariant found
    simp only [present, bind_eq_ok] at rest
    obtain ⟨_, fits, result⟩ := rest
    cases result
    exact ⟨definition, found, same, checkStructVariant_ok_iff.1 fits, rfl⟩
  · rintro ⟨definition, found, same, fits, rfl⟩
    obtain ⟨_, present, again⟩ := namedVariant_of_resolveVariant found
    rw [same] at again
    cases again
    refine ⟨found, ?_⟩
    simp only [present, bind_eq_ok]
    exact ⟨(), checkStructVariant_ok_iff.2 fits, rfl⟩

variable (env) in
/-- What the check of an arm says about a pattern, and what it leaves out of tuples and structs. -/
def Checked (node : Node) : Prop :=
  (∃ resolved, validate env node.ty node.pattern = .ok resolved) ∧ AggregateFits env node

theorem exists_validate_variant {checks : EnumVariantDef → Prop} {valid : Option (EnumId × Nat) → Prop}
    (same : ∀ resolved, valid resolved ↔
      ∃ place definition, resolveVariant env scrutinee module typeName variant = .ok place ∧
        namedVariant env scrutinee variant = some definition ∧ checks definition ∧
        resolved = some place) :
    (∃ resolved, valid resolved) ↔ NamesVariant env module typeName variant scrutinee ∧
      ∀ definition, namedVariant env scrutinee variant = some definition → checks definition := by
  simp only [same, namesVariant_iff]
  constructor
  · rintro ⟨_, place, definition, found, named, fits, _⟩
    refine ⟨⟨place, found⟩, ?_⟩
    intro _ again
    rw [named] at again
    cases again
    exact fits
  · rintro ⟨⟨place, found⟩, fits⟩
    obtain ⟨definition, _, named⟩ := namedVariant_of_resolveVariant found
    exact ⟨some place, place, definition, found, named, fits definition named, rfl⟩

theorem fits_iff_checked (node : Node) : Fits env node ↔ Checked env node := by
  obtain ⟨_, pattern, _⟩ := node
  cases pattern with
  | wildcard | ident _ _ => simp [Fits, Checked, validate, AggregateFits]
  | int _ | bool _ =>
    simp only [Fits, Checked, validate, AggregateFits, and_true]
    split <;> simp_all
  | path module typeName variant =>
    simp only [Fits, Checked, validate, AggregateFits, and_true, namesVariant_iff, bind_eq_ok]
    constructor
    · rintro ⟨resolved, found⟩
      exact ⟨some resolved, resolved, found, rfl⟩
    · rintro ⟨_, resolved, found, _⟩
      exact ⟨resolved, found⟩
  | dataVariant module typeName variant bindings =>
    simp only [Fits, Checked, AggregateFits, and_true]
    exact (exists_validate_variant fun _ => validate_dataVariant).symm
  | structVariant module typeName variant fields =>
    simp only [Fits, Checked, AggregateFits, and_true]
    exact (exists_validate_variant fun _ => validate_structVariant).symm
  | tuple elems rest =>
    refine ⟨fun fits => ⟨?_, fits⟩, And.right⟩
    obtain ⟨id, rfl, _⟩ := fits
    exact ⟨none, rfl⟩
  | struct module typeName fields hasRest =>
    simp only [Fits, Checked]
    refine ⟨fun fits => ⟨?_, fits⟩, And.right⟩
    obtain ⟨id, rfl, _⟩ := fits
    exact ⟨none, rfl⟩
  | comptimeUnrollArm _ _ => simp [Fits, Checked, validate]

end Validation

section Lowering

variable (env : Env)
variable {fields : List RirStructPatternBinding} {definition : EnumVariantDef} {ty : Ty} {node : Node}

variable {name : String} {bindings : List RirPatternBinding} {inVariant : Bool} {id : StructId}

def variantName : RirPattern → Option String
  | .path _ _ variant | .dataVariant _ _ variant _ | .structVariant _ _ variant _ => some variant
  | _ => none

def loweredParts (node : Node) : List Node := match node.pattern with
  | .struct _ typeName _ _ => if (env.structs typeName).isSome then parts env node else []
  | _ => parts env node

def resolvedBelow (node : Node) : Option (EnumId × Nat) :=
  if node.inVariant then resolveEnumFromPattern env node.pattern else none

def Lowers (node : Node) : Prop :=
  (lowerPattern env node.pattern (resolvedBelow env node)).isSome = true

def Resolvable (node : Node) : Prop := (variantName node.pattern).isSome = true →
    node.inVariant = true ∧ (resolveEnumFromPattern env node.pattern).isSome = true

variable {env}

theorem loweredParts_subset (node : Node) : ∀ part ∈ loweredParts env node, part ∈ parts env node := by
  intro part member
  unfold loweredParts at member
  split at member
  · split at member
    · exact member
    · cases member
  · exact member

theorem bindingToPattern_isSome (binding : RirPatternBinding) (ty : Ty) :
    (bindingToPattern env binding).isSome = true ↔ ∀ sub ∈ binding.subPattern, Lowers env ⟨true, sub, ty⟩ := by
  rcases binding with ⟨_ | _, _, _ | _, _ | sub⟩ <;>
    simp [bindingToPattern, RirPatternBinding.subPattern, Lowers, resolvedBelow]

theorem lowerBindings_isSome (bindings : List RirPatternBinding) : (lowerBindings env bindings).isSome = true ↔
      ∀ binding ∈ explicitBindings bindings, (bindingToPattern env binding).isSome = true := by
  induction bindings with
  | nil => simp [lowerBindings, explicitBindings]
  | cons binding bindings ih =>
    by_cases rest : binding.isRest = true
    · simpa [lowerBindings, explicitBindings, rest] using ih
    · have explicit : explicitBindings (binding :: bindings) = binding :: explicitBindings bindings := by
        simp [explicitBindings, rest]
      rw [lowerBindings, if_neg rest, explicit, List.forall_mem_cons, ← ih]
      cases bindingToPattern env binding with
      | none => simp
      | some pattern => cases lowerBindings env bindings <;> simp

theorem lowerElems_isSome (elems : List RirPattern) : (lowerElems env elems).isSome = true ↔
      ∀ elem ∈ elems, (lowerPattern env elem none).isSome = true := by
  induction elems with
  | nil => simp [lowerElems]
  | cons elem elems ih =>
    rw [lowerElems, List.forall_mem_cons, ← ih]
    cases lowerPattern env elem none with
    | none => simp
    | some pattern => cases lowerElems env elems <;> simp

theorem indexed_isSome {α : Type} (index : Nat) (patterns : List (Option α)) :
    (indexed index patterns).isSome = true ↔ ∀ pattern ∈ patterns, pattern.isSome = true := by
  induction patterns generalizing index with
  | nil => simp [indexed]
  | cons pattern patterns ih =>
    rw [indexed, List.forall_mem_cons, ← ih (index + 1)]
    cases pattern with
    | none => simp
    | some pattern => cases indexed (index + 1) patterns <;> simp

theorem knownFields_isSome (definition : StructDef) (fields : List RirStructField)
    (known : ∀ field ∈ fields, (structField definition field.fieldName).isSome) :
    (knownFields definition (lowerFields env fields)).isSome = true ↔
      ∀ field ∈ fields, (lowerPattern env field.pattern none).isSome = true := by
  induction fields with
  | nil => simp [lowerFields, knownFields]
  | cons field fields ih =>
    obtain ⟨fieldName, pattern⟩ := field
    obtain ⟨here, below⟩ := List.forall_mem_cons.mp known
    obtain ⟨_, found⟩ := Option.isSome_iff_exists.mp here
    simp only [RirStructField.fieldName] at found
    rw [lowerFields, knownFields, found, List.forall_mem_cons, ← ih below]
    simp only [RirStructField.pattern]
    cases lowerPattern env pattern none with
    | none => simp
    | some pattern => cases knownFields definition (lowerFields env fields) <;> simp

attribute [local simp] RirStructPatternBinding.fieldName RirStructPatternBinding.isRest

theorem listed_eq (distinct : ((explicitFields fields).map RirStructPatternBinding.fieldName).Nodup)
    {field : RirStructPatternBinding} (member : field ∈ explicitFields fields) :
    listed field.fieldName (lowerFieldBindings env fields) = some (bindingToPattern env field.binding) := by
  induction fields with
  | nil => cases member
  | cons first fields ih =>
    obtain ⟨firstName, binding⟩ := first
    rw [lowerFieldBindings, listed]
    by_cases rest : firstName = restMarker
    · rw [if_neg fun both => both.1 rest]
      have same : explicitFields (.mk firstName binding :: fields) = explicitFields fields := by
        simp [explicitFields, rest]
      rw [same] at distinct member
      exact ih distinct member
    · have explicit : explicitFields (.mk firstName binding :: fields) =
          .mk firstName binding :: explicitFields fields := by
        simp [explicitFields, rest]
      rw [explicit] at distinct member
      obtain ⟨fresh, distinct⟩ := List.nodup_cons.mp distinct
      rcases List.mem_cons.mp member with rfl | inRest
      · rw [if_pos ⟨rest, rfl⟩]
        rfl
      · have other : firstName ≠ field.fieldName := by
          intro same
          have isListed : field.fieldName ∈ (explicitFields fields).map RirStructPatternBinding.fieldName :=
            List.mem_map_of_mem inRest
          rw [← same] at isListed
          exact fresh isListed
        rw [if_neg fun both => other both.2]
        exact ih distinct inRest

theorem listed_mem {pattern : Option AirPattern}
    (found : listed name (lowerFieldBindings env fields) = some pattern) :
    ∃ field ∈ explicitFields fields, bindingToPattern env field.binding = pattern := by
  induction fields with
  | nil => cases found
  | cons first fields ih =>
    obtain ⟨firstName, binding⟩ := first
    rw [lowerFieldBindings, listed] at found
    split at found
    · cases found
      obtain ⟨notRest, _⟩ : firstName ≠ restMarker ∧ firstName = name := ‹_›
      refine ⟨.mk firstName binding, ?_, rfl⟩
      simp [explicitFields, notRest]
    · obtain ⟨field, member, lowered⟩ := ih found
      refine ⟨field, ?_, lowered⟩
      exact (List.sublist_cons_self _ _).filter _ |>.mem member

theorem orWildcard_isSome (fit : FieldsFit definition fields) : (∀ name ∈ definition.fieldNames,
        (orWildcard (lowerFieldBindings env fields) name).isSome = true) ↔
      ∀ field ∈ explicitFields fields, (bindingToPattern env field.binding).isSome = true := by
  obtain ⟨_, distinct, known, _⟩ := fit
  constructor
  · intro all field member
    obtain ⟨_, found⟩ := Option.isSome_iff_exists.mp (known field member)
    obtain ⟨name, present, same⟩ := position_spec found
    have named := all name (List.mem_of_getElem? present)
    rw [beq_iff_eq.mp same, orWildcard, listed_eq distinct member] at named
    exact named
  · intro all name _
    unfold orWildcard
    cases found : listed name (lowerFieldBindings env fields) with
    | none => rfl
    | some pattern =>
      obtain ⟨field, member, rfl⟩ := listed_mem found
      exact all field member

theorem explicitBindings_length (fits : ArityFits count bindings) : (explicitBindings bindings).length ≤ count := by
  unfold ArityFits at fits
  split at fits
  · obtain ⟨binding, member, rest⟩ := List.any_eq_true.mp ‹_›
    have fewer : (explicitBindings bindings).length < bindings.length :=
      List.length_filter_lt_length_iff_exists.mpr ⟨binding, member, by simp [rest]⟩
    omega
  · have atMost : (explicitBindings bindings).length ≤ bindings.length :=
      List.length_filter_le _ _
    omega

theorem dataParts_lower (fits : ArityFits definition.fields.length bindings) :
    (∀ part ∈ dataParts definition bindings, Lowers env part) ↔
      ∀ binding ∈ explicitBindings bindings, (bindingToPattern env binding).isSome = true := by
  have firsts := List.map_fst_zip (explicitBindings_length fits)
  conv => rhs; rw [← firsts]
  simp only [dataParts, List.mem_filterMap, List.forall_mem_map]
  constructor
  · intro all pair member
    refine (bindingToPattern_isSome pair.1 pair.2).mpr ?_
    intro sub below
    exact all _ ⟨pair, member, by rw [Option.mem_def.mp below]; rfl⟩
  · rintro all part ⟨pair, member, below⟩
    obtain ⟨sub, isSub, rfl⟩ := Option.map_eq_some_iff.mp below
    exact (bindingToPattern_isSome pair.1 pair.2).mp (all pair member) sub isSub

theorem variantFieldType_isSome {variant : String} (named : namedVariant env ty variant = some definition)
    (isStruct : isStructVariant definition = true)
    (known : (findField definition name).isSome = true) :
    ∃ index fieldTy, findField definition name = some index ∧ definition.fields[index]? = some fieldTy := by
  obtain ⟨index, found⟩ := Option.isSome_iff_exists.mp known
  have member : ∃ id, definition ∈ (env.pool.enumDef id).variants := by
    obtain ⟨id, _, rest⟩ := Option.bind_eq_some_iff.mp named
    obtain ⟨_, _, present⟩ := Option.bind_eq_some_iff.mp rest
    exact ⟨id, List.mem_of_getElem? present⟩
  obtain ⟨id, member⟩ := member
  have bound := position_lt found
  rcases env.variantNames id definition member with none | same
  · simp [isStructVariant, none] at isStruct
  · rw [same] at bound
    exact ⟨index, _, found, List.getElem?_eq_getElem bound⟩

theorem fieldParts_lower {variant : String} (named : namedVariant env ty variant = some definition)
    (fit : FieldsFit definition fields) :
    (∀ part ∈ fieldParts definition fields, Lowers env part) ↔
      ∀ field ∈ explicitFields fields, (bindingToPattern env field.binding).isSome = true := by
  simp only [fieldParts, List.mem_filterMap]
  constructor
  · intro all field member
    obtain ⟨_, fieldTy, found, present⟩ :=
      variantFieldType_isSome named fit.1 (fit.2.2.1 field member)
    refine (bindingToPattern_isSome field.binding fieldTy).mpr ?_
    intro sub below
    refine all _ ⟨field, member, ?_⟩
    rw [variantFieldType, found, Option.bind_some, present, Option.mem_def.mp below]
    rfl
  · rintro all part ⟨field, member, below⟩
    obtain ⟨fieldTy, _, rest⟩ := Option.bind_eq_some_iff.mp below
    obtain ⟨sub, isSub, result⟩ := Option.bind_eq_some_iff.mp rest
    cases result
    exact (bindingToPattern_isSome field.binding fieldTy).mp (all field member) sub isSub

theorem elemParts_lower {elems : List RirPattern} {rest : Option Nat}
    (arity : elems.length = (env.pool.structDef id).fields.length) :
    (∀ part ∈ parts env ⟨inVariant, .tuple elems rest, .struct id⟩, Lowers env part) ↔
      ∀ elem ∈ elems, (lowerPattern env elem none).isSome = true := by
  have lengths : elems.length ≤ (env.pool.structDef id).fieldTypes.length := by
    rw [StructDef.fieldTypes, List.length_map]
    exact arity.le
  conv => rhs; rw [← List.map_fst_zip lengths]
  simp only [parts, Ty.asStruct, List.forall_mem_map]
  rfl

theorem structParts_lower {hasRest : Bool} {module : Option InstRef} {typeName : String}
    {fields : List RirStructField}
    (known : ∀ field ∈ fields, (structField (env.pool.structDef id) field.fieldName).isSome) :
    (∀ part ∈ parts env ⟨inVariant, .struct module typeName fields hasRest, .struct id⟩, Lowers env part) ↔
      ∀ field ∈ fields, (lowerPattern env field.pattern none).isSome = true := by
  simp only [parts, Ty.asStruct, List.mem_filterMap]
  constructor
  · intro all field member
    obtain ⟨_, place⟩ := Option.isSome_iff_exists.mp (known field member)
    obtain ⟨structField, present, _⟩ := position_spec place
    refine all ⟨false, field.pattern, structField.ty⟩ ⟨field, member, ?_⟩
    rw [structFieldType, place, Option.bind_some, present]
    rfl
  · rintro all part ⟨field, member, below⟩
    obtain ⟨_, _, rfl⟩ := Option.map_eq_some_iff.mp below
    exact all field member

def Agrees (env : Env) (node : Node) (resolved : Option (EnumId × Nat)) : Prop :=
  ∀ place ∈ resolved, ∀ variant ∈ variantName node.pattern,
    variantDef env place.1 place.2 = namedVariant env node.ty variant

theorem exists_namedVariant {module : Option InstRef} {typeName variant : String}
    (names : NamesVariant env module typeName variant ty) :
    ∃ definition, namedVariant env ty variant = some definition := by
  obtain ⟨_, found⟩ := namesVariant_iff.1 names
  obtain ⟨definition, _, named⟩ := namedVariant_of_resolveVariant found
  exact ⟨definition, named⟩

theorem lowerPattern_isSome {resolved : Option (EnumId × Nat)} (fits : Fits env node)
    (agrees : Agrees env node resolved) :
    (lowerPattern env node.pattern resolved).isSome = true ↔
      ((variantName node.pattern).isSome = true → resolved.isSome = true) ∧
        ∀ part ∈ loweredParts env node, Lowers env part := by
  obtain ⟨inVariant, pattern, ty⟩ := node
  cases pattern with
  | wildcard | int _ | bool _ | ident _ _ | comptimeUnrollArm _ _ =>
    simp [lowerPattern, variantName, loweredParts, parts]
  | path module typeName variant =>
    cases resolved <;> simp [lowerPattern, variantName, loweredParts, parts]
  | dataVariant module typeName variant bindings =>
    obtain ⟨definition, named⟩ := exists_namedVariant fits.1
    cases resolved with
    | none => simp [lowerPattern, variantName]
    | some place =>
      have present := agrees place rfl variant rfl
      rw [named] at present
      have parted : loweredParts env ⟨inVariant, .dataVariant module typeName variant bindings,
          ty⟩ = dataParts definition bindings := by
        simp [loweredParts, parts, named]
      rw [parted, dataParts_lower (fits.2 definition named), ← lowerBindings_isSome]
      simp only [lowerPattern, Option.bind_eq_bind, Option.bind_some, present]
      cases lowerBindings env bindings <;> simp
  | structVariant module typeName variant fields =>
    obtain ⟨definition, named⟩ := exists_namedVariant fits.1
    have fit := fits.2 definition named
    cases resolved with
    | none => simp [lowerPattern, variantName]
    | some place =>
      have present := agrees place rfl variant rfl
      rw [named] at present
      have parted : loweredParts env ⟨inVariant, .structVariant module typeName variant fields,
          ty⟩ = fieldParts definition fields := by
        simp [loweredParts, parts, named]
      have lowered : (∀ name ∈ definition.fieldNames,
          (orWildcard (lowerFieldBindings env fields) name).isSome = true) ↔
          (indexed 0 (definition.fieldNames.map (orWildcard (lowerFieldBindings env fields)))).isSome = true := by
        rw [indexed_isSome, List.forall_mem_map]
      rw [parted, fieldParts_lower named fit, ← orWildcard_isSome fit, lowered]
      simp only [lowerPattern, Option.bind_eq_bind, Option.bind_some, present]
      cases indexed 0 (definition.fieldNames.map (orWildcard (lowerFieldBindings env fields))) <;> simp
  | tuple elems rest =>
    obtain ⟨id, sameTy, _, arity⟩ := fits
    subst sameTy
    rw [loweredParts, elemParts_lower arity, ← lowerElems_isSome]
    simp only [lowerPattern, variantName]
    cases lowerElems env elems <;> simp
  | struct module typeName fields hasRest =>
    obtain ⟨id, sameTy, names, _, known, _⟩ := fits
    subst sameTy
    rcases names with found | ⟨missing, _⟩
    · simp only [loweredParts, found, Option.isSome_some, if_true]
      rw [structParts_lower known, ← knownFields_isSome _ _ known]
      simp only [lowerPattern, found, variantName]
      cases knownFields (env.pool.structDef id) (lowerFields env fields) <;> simp
    · simp [lowerPattern, missing, variantName, loweredParts]

theorem resolveEnum_of_enums {module : Option InstRef} {typeName : String} {id other : EnumId}
    (found : env.enums typeName = some id) (named : resolveEnum env module typeName = .ok other) :
    id = other := by
  cases module with
  | none =>
    simp only [resolveEnum, found, Except.ok.injEq] at named
    exact named
  | some module =>
    simp only [resolveEnum, resolveEnumThroughModule, found] at named
    split at named
    · cases named
      rfl
    · cases named

theorem variantDef_of_names {module : Option InstRef} {typeName variant : String}
    {place : EnumId × Nat} (names : NamesVariant env module typeName variant ty) (found : (do
      let id ← env.enums typeName
      let index ← findVariant (env.pool.enumDef id) variant
      return (id, index)) = some place) :
    variantDef env place.1 place.2 = namedVariant env ty variant := by
  obtain ⟨id, inTable, rest⟩ := Option.bind_eq_some_iff.mp found
  obtain ⟨index, position, result⟩ := Option.bind_eq_some_iff.mp rest
  cases result
  obtain ⟨_, named, rfl, _⟩ := names
  obtain rfl := resolveEnum_of_enums inTable named
  simp [namedVariant, Ty.asEnum, position]

theorem agrees_resolvedBelow (fits : Fits env node) : Agrees env node (resolvedBelow env node) := by
  obtain ⟨inVariant, pattern, _⟩ := node
  intro _ found variant named
  cases inVariant with
  | false => cases found
  | true =>
    cases pattern with
    | path module typeName variant =>
      cases named
      exact variantDef_of_names fits found
    | dataVariant module typeName variant bindings | structVariant module typeName variant fields =>
      cases named
      exact variantDef_of_names fits.1 found
    | wildcard | int _ | bool _ | ident _ _ | tuple _ _ | struct _ _ _ _
    | comptimeUnrollArm _ _ => cases named

theorem lowers_iff (fits : Fits env node) :
    Lowers env node ↔ Resolvable env node ∧ ∀ part ∈ loweredParts env node, Lowers env part := by
  rw [Lowers, lowerPattern_isSome fits (agrees_resolvedBelow fits)]
  refine and_congr_left fun _ => forall_congr' fun _ => ?_
  cases inVariant : node.inVariant <;> simp [resolvedBelow, inVariant]

end Lowering

section Emission

variable {env : Env}

theorem isSome_bind_append {α : Type} {first second : Option (List α)}
    (firstSome : first.isSome = true) (secondSome : second.isSome = true) :
    (do
      let a ← first
      let b ← second
      return a ++ b).isSome = true := by
  obtain ⟨a, rfl⟩ := Option.isSome_iff_exists.mp firstSome
  obtain ⟨b, rfl⟩ := Option.isSome_iff_exists.mp secondSome
  rfl

mutual

theorem emitRecursivePatternBindings_isSome (ty : Ty) (place : List Projection) (pattern : RirPattern) :
    (emitRecursivePatternBindings env ty place pattern).isSome = true := by
  match pattern with
  | .wildcard | .int _ | .bool _ | .path _ _ _ | .ident _ _ | .comptimeUnrollArm _ _ =>
    simp [emitRecursivePatternBindings]
  | .tuple elems rest =>
    rw [emitRecursivePatternBindings]
    split
    · rfl
    · exact emitElems_isSome _ place 0 elems
  | .struct _ _ fields _ =>
    rw [emitRecursivePatternBindings]
    split
    · rfl
    · exact emitFields_isSome _ place fields
  | .dataVariant module typeName variant bindings =>
    rw [emitRecursivePatternBindings]
    split
    · rfl
    · rename_i id index found
      obtain ⟨_, _, rest⟩ := Option.bind_eq_some_iff.mp found
      obtain ⟨_, position, result⟩ := Option.bind_eq_some_iff.mp rest
      cases result
      obtain ⟨definition, present⟩ := variantDef_of_findVariant position
      rw [present]
      exact emitBindings_isSome definition index place 0 bindings
  | .structVariant module typeName variant fields =>
    rw [emitRecursivePatternBindings]
    split
    · rfl
    · rename_i id index found
      obtain ⟨_, _, rest⟩ := Option.bind_eq_some_iff.mp found
      obtain ⟨_, position, result⟩ := Option.bind_eq_some_iff.mp rest
      cases result
      obtain ⟨definition, present⟩ := variantDef_of_findVariant position
      rw [present]
      exact emitFieldBindings_isSome definition index place
        (env.variantNames id definition (List.mem_of_getElem? present)) fields

theorem emitElems_isSome (id : StructId) (place : List Projection) (index : Nat)
    (elems : List RirPattern) : (emitElems env id place index elems).isSome = true := by
  match elems with
  | [] => rfl
  | elem :: elems =>
    rw [emitElems]
    split
    · rfl
    · exact isSome_bind_append (emitRecursivePatternBindings_isSome _ _ elem)
        (emitElems_isSome id place (index + 1) elems)

theorem emitFields_isSome (id : StructId) (place : List Projection)
    (fields : List RirStructField) : (emitFields env id place fields).isSome = true := by
  match fields with
  | [] => rfl
  | .mk fieldName pattern :: fields =>
    rw [emitFields]
    split
    · exact emitFields_isSome id place fields
    · obtain ⟨_, present, _⟩ := position_spec ‹_›
      rw [present]
      exact isSome_bind_append (emitRecursivePatternBindings_isSome _ _ pattern) (emitFields_isSome id place fields)

theorem emitBindings_isSome (definition : EnumVariantDef) (variantIndex : Nat)
    (place : List Projection) (index : Nat) (bindings : List RirPatternBinding) :
    (emitBindings env definition variantIndex place index bindings).isSome = true := by
  match bindings with
  | [] => rfl
  | binding :: bindings =>
    rw [emitBindings]
    split
    · rfl
    · exact isSome_bind_append (emitBindingSetup_isSome _ _ binding)
        (emitBindings_isSome definition variantIndex place (index + 1) bindings)

theorem emitFieldBindings_isSome (definition : EnumVariantDef) (variantIndex : Nat)
    (place : List Projection) (names : definition.fieldNames = [] ∨
      definition.fieldNames.length = definition.fields.length)
    (fields : List RirStructPatternBinding) :
    (emitFieldBindings env definition variantIndex place fields).isSome = true := by
  match fields with
  | [] => rfl
  | .mk fieldName binding :: fields =>
    rw [emitFieldBindings]
    split
    · exact emitFieldBindings_isSome definition variantIndex place names fields
    · split
      · exact emitFieldBindings_isSome definition variantIndex place names fields
      · rename_i index found
        have bound : index < definition.fields.length := by
          have inNames := position_lt found
          rcases names with none | same
          · simp [none] at inNames
          · exact same ▸ inNames
        rw [List.getElem?_eq_getElem bound]
        exact isSome_bind_append (emitBindingSetup_isSome _ _ binding)
          (emitFieldBindings_isSome definition variantIndex place names fields)

theorem emitBindingSetup_isSome (ty : Ty) (place : List Projection) (binding : RirPatternBinding) :
    (emitBindingSetup env ty place binding).isSome = true := by
  match binding with
  | .mk _ _ _ (some sub) =>
    exact emitRecursivePatternBindings_isSome ty place sub
  | .mk true _ _ none | .mk false _ (some _) none | .mk false _ none none =>
    simp [emitBindingSetup]

end

variable (env) in
theorem emitVariantField_isSome {definition : EnumVariantDef} (variantIndex : Nat) {field : Nat × RirPatternBinding} :
    (emitVariantField env definition variantIndex field).isSome = true ↔ field.1 < definition.fields.length := by
  unfold emitVariantField
  by_cases bound : field.1 < definition.fields.length
  · rw [List.getElem?_eq_getElem bound]
    simp only [Option.bind_eq_bind, Option.bind_some, bound, iff_true]
    split
    · exact emitRecursivePatternBindings_isSome _ _ _
    · rfl
  · simp [bound]

theorem emitVariantFields_isSome {definition : EnumVariantDef} {variantIndex : Nat}
    {fields : List (Nat × RirPatternBinding)} :
    (emitVariantFields env definition variantIndex fields).isSome = true ↔
      ∀ field ∈ fields, field.1 < definition.fields.length := by
  induction fields with
  | nil => simp [emitVariantFields]
  | cons field fields ih =>
    rw [emitVariantFields, List.forall_mem_cons, ← ih, ← emitVariantField_isSome env variantIndex]
    cases emitVariantField env definition variantIndex field with
    | none => simp
    | some setups => cases emitVariantFields env definition variantIndex fields <;> simp

def EndsInRest (bindings : List RirPatternBinding) : Prop :=
  ∃ rest ∈ bindings.getLast?, rest.isRest = true

theorem endsInRest_iff {bindings : List RirPatternBinding} :
    (bindings.getLast?.map RirPatternBinding.isRest).getD false = true ↔ EndsInRest bindings := by
  cases last : bindings.getLast? <;> simp [EndsInRest, last]

theorem zipIdx_bounded {bindings : List RirPatternBinding} :
    (∀ field ∈ bindings.zipIdx.map fun (binding, index) => (index, binding), field.1 < count) ↔
      bindings.length ≤ count := by
  rw [List.forall_mem_map]
  constructor
  · intro all
    by_contra many
    have inside : count < bindings.length := by omega
    have member : (bindings[count], count) ∈ bindings.zipIdx :=
      List.mem_zipIdx_iff_getElem?.mpr (List.getElem?_eq_getElem inside)
    have small := all _ member
    simp at small
  · rintro _ ⟨binding, index⟩ member
    have inside := (List.getElem?_eq_some_iff.mp (List.mem_zipIdx_iff_getElem?.mp member)).1
    simp only at inside ⊢
    omega

theorem dataBindings_bounded {bindings : List RirPatternBinding} (fits : ArityFits count bindings) :
    ∃ fields, dataBindings count bindings = some fields ∧
      ((∀ field ∈ fields, field.1 < count) ↔ (EndsInRest bindings → bindings.length - 1 < count)) := by
  unfold dataBindings
  by_cases ends : EndsInRest bindings
  · have nonempty : 0 < bindings.length := by
      obtain ⟨rest, last, _⟩ := ends
      exact List.length_pos_of_mem (List.mem_of_getLast? last)
    have atMost : bindings.length - 1 ≤ count := by
      have anyRest : bindings.any RirPatternBinding.isRest = true := by
        obtain ⟨rest, last, isRest⟩ := ends
        exact List.any_eq_true.mpr ⟨rest, List.mem_of_getLast? last, isRest⟩
      unfold ArityFits at fits
      rw [if_pos anyRest] at fits
      exact fits.2
    simp only [endsInRest_iff.2 ends, true_and, if_true, forall_const, ends]
    rw [if_neg (by omega)]
    refine ⟨_, rfl, ?_⟩
    rw [zipIdx_bounded]
    by_cases leaves : bindings.length - 1 < count
    · have padded : (List.replicate (count - (bindings.length - 1)) RirPatternBinding.wildcard).isEmpty = false := by
        rw [List.isEmpty_replicate]
        have some : count - (bindings.length - 1) ≠ 0 := by omega
        exact decide_eq_false some
      simp only [padded, Bool.false_eq_true, if_false, List.length_append, List.length_take, List.length_replicate]
      omega
    · have none : count - (bindings.length - 1) = 0 := by omega
      simp only [none, List.replicate_zero, List.isEmpty_nil, if_true]
      omega
  · have noRest : bindings.any RirPatternBinding.isRest = false := by
      by_contra some
      unfold ArityFits at fits
      rw [if_pos (by simpa using some)] at fits
      exact ends fits.1
    have exact_ : bindings.length = count := by
      unfold ArityFits at fits
      rw [if_neg (by simp [noRest])] at fits
      exact fits
    have notEnds : (bindings.getLast?.map RirPatternBinding.isRest).getD false = false := by
      simpa using (not_congr endsInRest_iff).mpr ends
    simp only [notEnds, Bool.false_eq_true, false_and, if_false, List.isEmpty_nil, if_true]
    refine ⟨_, rfl, ?_⟩
    rw [zipIdx_bounded]
    simp [ends, exact_]

theorem namedBindings_bounded {definition : EnumVariantDef} {fields : List RirStructPatternBinding}
    (known : ∀ field ∈ explicitFields fields, (findField definition field.fieldName).isSome) :
    ∃ explicit, namedBindings definition fields = some explicit ∧
      ∀ field ∈ explicit, field.1 < definition.fieldNames.length := by
  induction fields with
  | nil => exact ⟨[], rfl, nofun⟩
  | cons field fields ih =>
    rw [namedBindings]
    by_cases rest : field.isRest = true
    · rw [if_pos rest]
      refine ih ?_
      simpa [explicitFields, rest] using known
    · have explicit : explicitFields (field :: fields) = field :: explicitFields fields := by
        simp [explicitFields, rest]
      rw [explicit] at known
      obtain ⟨here, below⟩ := List.forall_mem_cons.mp known
      obtain ⟨_, found⟩ := Option.isSome_iff_exists.mp here
      obtain ⟨_, named, bounded⟩ := ih below
      rw [if_neg rest, found, named]
      exact ⟨_, rfl, List.forall_mem_cons.mpr ⟨position_lt found, bounded⟩⟩

theorem structBindings_bounded {definition : EnumVariantDef}
    {fields : List RirStructPatternBinding} (fit : FieldsFit definition fields) :
    ∃ bindings, structBindings definition fields = some bindings ∧
      ∀ field ∈ bindings, field.1 < definition.fieldNames.length := by
  obtain ⟨explicit, named, bounded⟩ := namedBindings_bounded fit.2.2.1
  refine ⟨_, by rw [structBindings, named]; rfl, ?_⟩
  intro field member
  rcases List.mem_append.mp member with listed | unlisted
  · exact bounded field listed
  · split at unlisted
    · obtain ⟨⟨_, index⟩, present, result⟩ := List.mem_filterMap.mp unlisted
      simp only at result
      by_cases inExplicit : index ∈ explicit.map Prod.fst
      · rw [if_pos inExplicit] at result
        cases result
      · rw [if_neg inExplicit] at result
        cases result
        exact (List.getElem?_eq_some_iff.mp (List.mem_zipIdx_iff_getElem?.mp present)).1
    · cases unlisted

end Emission

end Gruel.MatchPatterns
