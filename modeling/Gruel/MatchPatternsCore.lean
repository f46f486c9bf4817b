import Gruel.UsefulnessCore

/-!
The arms of a `match`, from the patterns of the syntax tree to the patterns that
are tested: how a pattern is generated, how an arm is checked against the type of
the scrutinee, and how its bindings and its pattern are lowered.  What panics in
the source is `none`, and `Failure.panic` for a whole `match`.
-/

namespace Gruel.MatchPatterns

abbrev InstRef := Nat

def restMarker : String := ".."

mutual

/-- A base is the module expression before the name of an enum. -/
inductive Pattern
  | wildcard
  | ident (isMut : Bool) (name : String)
  | int (value : BitVec 64)
  | negInt (value : BitVec 64)
  | bool (value : Bool)
  | path (base : Option InstRef) (typeName variant : String)
  | dataVariant (base : Option InstRef) (typeName variant : String) (fields : List TupleElemPattern)
  | structVariant (base : Option InstRef) (typeName variant : String) (fields : List FieldPattern)
  | struct (typeName : String) (fields : List FieldPattern)
  | tuple (elems : List TupleElemPattern)
  | comptimeUnrollArm (binding : String) (iterable : InstRef)

inductive TupleElemPattern
  | pattern (pattern : Pattern)
  | rest

inductive FieldPattern
  | mk (fieldName : Option String) (sub : Option Pattern) (isMut : Bool)

end

mutual

inductive RirPattern
  | wildcard
  | int (value : Int)
  | bool (value : Bool)
  | path (module : Option InstRef) (typeName variant : String)
  | dataVariant (module : Option InstRef) (typeName variant : String) (bindings : List RirPatternBinding)
  | structVariant (module : Option InstRef) (typeName variant : String) (fieldBindings : List RirStructPatternBinding)
  | ident (name : String) (isMut : Bool)
  | tuple (elems : List RirPattern) (restPosition : Option Nat)
  | struct (module : Option InstRef) (typeName : String) (fields : List RirStructField) (hasRest : Bool)
  | comptimeUnrollArm (binding : String) (iterable : InstRef)

inductive RirPatternBinding
  | mk (isWildcard isMut : Bool) (name : Option String) (subPattern : Option RirPattern)

inductive RirStructPatternBinding
  | mk (fieldName : String) (binding : RirPatternBinding)

inductive RirStructField
  | mk (fieldName : String) (pattern : RirPattern)

end

namespace RirPatternBinding

def name : RirPatternBinding → Option String
  | mk _ _ name _ => name

def isWildcard : RirPatternBinding → Bool
  | mk isWildcard _ _ _ => isWildcard

def isMut : RirPatternBinding → Bool
  | mk _ isMut _ _ => isMut

def subPattern : RirPatternBinding → Option RirPattern
  | mk _ _ _ subPattern => subPattern

def isRest (binding : RirPatternBinding) : Bool := binding.name == some restMarker

def wildcard : RirPatternBinding := mk true false none none

end RirPatternBinding

namespace RirStructPatternBinding

def fieldName : RirStructPatternBinding → String
  | mk fieldName _ => fieldName

def binding : RirStructPatternBinding → RirPatternBinding
  | mk _ binding => binding

def isRest (field : RirStructPatternBinding) : Bool := field.fieldName == restMarker

end RirStructPatternBinding

namespace RirStructField

def fieldName : RirStructField → String
  | mk fieldName _ => fieldName

def pattern : RirStructField → RirPattern
  | mk _ pattern => pattern

end RirStructField

def restPosition : Nat → List TupleElemPattern → Option Nat
  | _, [] => none
  | index, .pattern _ :: elems => restPosition (index + 1) elems
  | index, .rest :: elems => some ((restPosition (index + 1) elems).getD index)

def hasRestField : List FieldPattern → Bool
  | [] => false
  | .mk fieldName _ _ :: fields => fieldName.isNone || hasRestField fields

mutual

def genMatchArmPattern : Pattern → RirPattern
  | .wildcard => .wildcard
  | .int value => .int value.toInt
  | .negInt value => .int (-value).toInt
  | .bool value => .bool value
  | .path base typeName variant => .path base typeName variant
  | .dataVariant base typeName variant fields =>
    .dataVariant base typeName variant (tupleElemsToRirBindings fields)
  | .structVariant base typeName variant fields =>
    .structVariant base typeName variant (fieldPatternsToRirBindings fields)
  | .ident isMut name => .ident name isMut
  | .tuple elems => .tuple (genElems elems) (restPosition 0 elems)
  | .struct typeName fields => .struct none typeName (genFields fields) (hasRestField fields)
  | .comptimeUnrollArm binding iterable => .comptimeUnrollArm binding iterable

def tupleElemsToRirBindings : List TupleElemPattern → List RirPatternBinding
  | [] => []
  | elem :: elems => tupleElemToRirBinding elem :: tupleElemsToRirBindings elems

def tupleElemToRirBinding : TupleElemPattern → RirPatternBinding
  | .pattern .wildcard => .mk true false none none
  | .pattern (.ident isMut name) => .mk false isMut (some name) none
  | .pattern sub => .mk false false none (some (genMatchArmPattern sub))
  | .rest => .mk true false (some restMarker) none

def fieldPatternsToRirBindings : List FieldPattern → List RirStructPatternBinding
  | [] => []
  | .mk fieldName sub isMut :: fields =>
    .mk (fieldName.getD restMarker) (fieldPatternToRirBinding fieldName sub isMut) ::
      fieldPatternsToRirBindings fields

def fieldPatternToRirBinding (fieldName : Option String) (sub : Option Pattern) (isMut : Bool) : RirPatternBinding :=
  match fieldName, sub with
  | none, _ => .mk true false (some restMarker) none
  | some name, none => .mk false isMut (some name) none
  | some _, some .wildcard => .mk true false none none
  | some _, some (.ident subMut name) => .mk false (isMut || subMut) (some name) none
  | some _, some sub => .mk false false none (some (genMatchArmPattern sub))

def genElems : List TupleElemPattern → List RirPattern
  | [] => []
  | .pattern pattern :: elems => genMatchArmPattern pattern :: genElems elems
  | .rest :: elems => genElems elems

def genFields : List FieldPattern → List RirStructField
  | [] => []
  | .mk none _ _ :: fields => genFields fields
  | .mk (some name) (some sub) _ :: fields =>
    .mk name (genMatchArmPattern sub) :: genFields fields
  | .mk (some name) none isMut :: fields => .mk name (.ident name isMut) :: genFields fields

end

structure Env where
  pool : TypeInternPool
  enums : String → Option EnumId
  structs : String → Option StructId
  comptimeTypeVars : String → Option Ty
  isAccessible : EnumId → Bool
  -- The number of an interned name.
  symbol : String → Nat
  variantNames : ∀ id, ∀ variant ∈ (pool.enumDef id).variants,
    variant.fieldNames = [] ∨ variant.fieldNames.length = variant.fields.length

def position {α : Type*} (fits : α → Bool) : List α → Option Nat
  | [] => none
  | a :: rest => if fits a then some 0 else (position fits rest).map (· + 1)

def findVariant (definition : EnumDef) (name : String) : Option Nat :=
  position (fun variant => variant.name == name) definition.variants

def findField (variant : EnumVariantDef) (name : String) : Option Nat :=
  position (· == name) variant.fieldNames

def isStructVariant (variant : EnumVariantDef) : Bool := !variant.fieldNames.isEmpty

def structField (definition : StructDef) (name : String) : Option Nat :=
  position (fun field => field.name == name) definition.fields

inductive SemaError
  | invalidMatchType (ty : Ty)
  | emptyMatch
  | typeMismatch (scrutinee : Ty) (found : String)
  | armTypeMismatch (expected found : Ty)
  | unknownEnumType (name : String)
  | privateMemberAccess (itemKind name : String)
  | unknownVariant (enumName variantName : String)
  | wrongArgumentCount (expected found : Nat)
  | notStructVariant (found expected : String)
  | duplicateField (structName fieldName : String)
  | unknownField (structName fieldName : String)
  | missingFields (structName : String) (missing : List String)
  | comptimeEvaluationFailed (reason : String)
  | nonExhaustiveMatch (missing : List AirPattern)
  | internalError (reason : String)

inductive Failure
  | error (error : SemaError)
  | panic

section Checks

variable (env : Env)

def resolveEnumThroughModule (typeName : String) : Except SemaError EnumId :=
  match env.enums typeName with
  | none => .error (.unknownEnumType typeName)
  | some id =>
    if env.isAccessible id then .ok id else .error (.privateMemberAccess "enum" typeName)

def resolveEnum (module : Option InstRef) (typeName : String) : Except SemaError EnumId :=
  match module with
  | some _ => resolveEnumThroughModule env typeName
  | none =>
    match env.enums typeName with
    | some id => .ok id
    | none =>
      match (env.comptimeTypeVars typeName).bind Ty.asEnum with
      | some id => .ok id
      | none => .error (.unknownEnumType typeName)

def resolveVariant (scrutinee : Ty) (module : Option InstRef) (typeName variant : String) :
    Except SemaError (EnumId × Nat) := do
  let id ← resolveEnum env module typeName
  let definition := env.pool.enumDef id
  if scrutinee ≠ .enum id then throw (.typeMismatch scrutinee definition.name)
  else
    match findVariant definition variant with
    | none => throw (.unknownVariant definition.name variant)
    | some index => return (id, index)

def variantDef (id : EnumId) (index : Nat) : Option EnumVariantDef :=
  (env.pool.enumDef id).variants[index]?

def checkArity (fieldCount : Nat) (bindings : List RirPatternBinding) : Except SemaError Unit :=
  if bindings.any RirPatternBinding.isRest then
    if !(bindings.getLast?.map RirPatternBinding.isRest).getD false then
      .error (.wrongArgumentCount fieldCount bindings.length)
    else if bindings.length - 1 > fieldCount then
      .error (.wrongArgumentCount fieldCount (bindings.length - 1))
    else .ok ()
  else if bindings.length ≠ fieldCount then
    .error (.wrongArgumentCount fieldCount bindings.length)
  else .ok ()

def checkFieldNames (structName : String) (variant : EnumVariantDef) :
    List String → List RirStructPatternBinding → Except SemaError Unit
  | _, [] => .ok ()
  | seen, field :: fields =>
    if field.isRest then checkFieldNames structName variant seen fields
    else if field.fieldName ∈ seen then .error (.duplicateField structName field.fieldName)
    else if (findField variant field.fieldName).isNone then
      .error (.unknownField structName field.fieldName)
    else checkFieldNames structName variant (field.fieldName :: seen) fields

def checkStructVariant (enumName : String) (variant : EnumVariantDef)
    (fields : List RirStructPatternBinding) : Except SemaError Unit := do
  let structName := enumName ++ "::" ++ variant.name
  if !isStructVariant variant then
    throw (.notStructVariant ("tuple-style pattern `" ++ structName ++ "(...)`")
      ("struct-style pattern `" ++ structName ++ " \x7b ... \x7d`"))
  else
    checkFieldNames structName variant [] fields
    if !fields.any RirStructPatternBinding.isRest ∧ fields.length ≠ variant.fieldNames.length then
      throw (.missingFields structName (variant.fieldNames.filter fun name =>
        !fields.any fun field => field.fieldName == name))
    else return ()

/-- The check of an arm's pattern against the type of the scrutinee: the variant it names, if it is
the pattern of one.  Sub-patterns are not looked at. -/
def validate (scrutinee : Ty) : RirPattern → Except SemaError (Option (EnumId × Nat))
  | .wildcard => .ok none
  | .int _ =>
    if scrutinee.isInteger then .ok none else .error (.typeMismatch scrutinee "integer")
  | .bool _ => if scrutinee = .bool then .ok none else .error (.typeMismatch scrutinee "bool")
  | .path module typeName variant => do
      let resolved ← resolveVariant env scrutinee module typeName variant
      return some resolved
  | .dataVariant module typeName variant bindings => do
      let (id, index) ← resolveVariant env scrutinee module typeName variant
      match variantDef env id index with
      | none => return none
      | some definition =>
        checkArity definition.fields.length bindings
        return some (id, index)
  | .structVariant module typeName variant fieldBindings => do
      let (id, index) ← resolveVariant env scrutinee module typeName variant
      match variantDef env id index with
      | none => return none
      | some definition =>
        checkStructVariant (env.pool.enumDef id).name definition fieldBindings
        return some (id, index)
  | .ident _ _ => .ok none
  | .tuple _ _ =>
    if scrutinee.asStruct.isSome then .ok none else .error (.typeMismatch scrutinee "tuple")
  | .struct _ typeName _ _ =>
    if scrutinee.asStruct.isSome then .ok none else .error (.typeMismatch scrutinee typeName)
  | .comptimeUnrollArm _ _ =>
    .error (.internalError "comptime_unroll for arm not expanded before validation")

end Checks

section Lowering

variable (env : Env)

def resolveEnumFromPattern : RirPattern → Option (EnumId × Nat)
  | .path _ typeName variant | .dataVariant _ typeName variant _
  | .structVariant _ typeName variant _ => do
      let id ← env.enums typeName
      let index ← findVariant (env.pool.enumDef id) variant
      return (id, index)
  | _ => none

def expandedTuplePattern (scrutinee : Ty) (pattern : RirPattern) : RirPattern :=
  match pattern, scrutinee.asStruct with
  | .tuple elems (some rest), some id =>
    let arity := (env.pool.structDef id).fields.length
    let before := elems.take (min rest elems.length)
    let after := elems.drop (min rest elems.length)
    .tuple (before ++ List.replicate (arity - elems.length) .wildcard ++ after) none
  | _, _ => pattern

def listed {α : Type*} (name : String) : List (String × α) → Option α
  | [] => none
  | (fieldName, a) :: fields =>
    if fieldName ≠ restMarker ∧ fieldName = name then some a else listed name fields

def orWildcard (fields : List (String × Option AirPattern)) (name : String) : Option AirPattern :=
  (listed name fields).getD (some .wildcard)

def knownFields {α : Type*} (definition : StructDef) : List (String × Option α) → Option (List (Nat × α))
  | [] => some []
  | (name, pattern) :: fields =>
    match structField definition name with
    | none => knownFields definition fields
    | some index => do
        let pattern ← pattern
        let patterns ← knownFields definition fields
        return (index, pattern) :: patterns

def indexed {α : Type*} : Nat → List (Option α) → Option (List (Nat × α))
  | _, [] => some []
  | index, pattern :: patterns => do
      let pattern ← pattern
      let patterns ← indexed (index + 1) patterns
      return (index, pattern) :: patterns

mutual

def lowerPattern : RirPattern → Option (EnumId × Nat) → Option AirPattern
  | .wildcard, _ => some .wildcard
  | .int value, _ => some (.int value)
  | .bool value, _ => some (.bool value)
  | .path _ _ _, resolved => do
      let (id, index) ← resolved
      return .enumUnitVariant id index
  | .dataVariant _ _ _ bindings, resolved => do
      let (id, index) ← resolved
      let definition ← variantDef env id index
      let fields ← lowerBindings bindings
      return .enumDataVariant id index (fields ++ List.replicate (definition.fields.length - fields.length) .wildcard)
  | .structVariant _ _ _ fieldBindings, resolved => do
      let (id, index) ← resolved
      let definition ← variantDef env id index
      let fields ← indexed 0 (definition.fieldNames.map (orWildcard (lowerFieldBindings fieldBindings)))
      return .enumStructVariant id index fields
  | .ident name isMut, _ => some (.bind (env.symbol name) isMut none)
  -- The elements are lowered without a variant, whatever they are.
  | .tuple elems _, _ => do
      let elems ← lowerElems elems
      return .tuple elems
  | .struct _ typeName fields _, _ =>
    match env.structs typeName with
    | none => some .wildcard
    | some id => do
        let fields ← knownFields (env.pool.structDef id) (lowerFields fields)
        return .struct id fields
  | .comptimeUnrollArm _ _, _ => some .wildcard

def bindingToPattern : RirPatternBinding → Option AirPattern
  | .mk _ _ _ (some sub) => lowerPattern sub (resolveEnumFromPattern env sub)
  | .mk true _ _ none => some .wildcard
  | .mk false isMut (some name) none => some (.bind (env.symbol name) isMut none)
  | .mk false _ none none => some .wildcard

def lowerBindings : List RirPatternBinding → Option (List AirPattern)
  | [] => some []
  | binding :: bindings =>
    if binding.isRest then lowerBindings bindings
    else do
      let pattern ← bindingToPattern binding
      let patterns ← lowerBindings bindings
      return pattern :: patterns

def lowerFieldBindings : List RirStructPatternBinding → List (String × Option AirPattern)
  | [] => []
  | .mk fieldName binding :: fields =>
    (fieldName, bindingToPattern binding) :: lowerFieldBindings fields

def lowerElems : List RirPattern → Option (List AirPattern)
  | [] => some []
  | elem :: elems => do
      let pattern ← lowerPattern elem none
      let patterns ← lowerElems elems
      return pattern :: patterns

def lowerFields : List RirStructField → List (String × Option AirPattern)
  | [] => []
  | .mk fieldName pattern :: fields =>
    (fieldName, lowerPattern pattern none) :: lowerFields fields

end

end Lowering

inductive Projection
  | field (structId : StructId) (index : Nat)
  | payload (variantIndex fieldIndex : Nat)
  deriving DecidableEq, Repr

structure Setup where
  name : Option String
  isMut : Bool
  ty : Ty
  place : List Projection
  deriving DecidableEq, Repr

section Emission

variable (env : Env)

mutual

def emitRecursivePatternBindings (ty : Ty) (place : List Projection) : RirPattern → Option (List Setup)
  | .ident name isMut => some [⟨some name, isMut, ty, place⟩]
  | .tuple elems _ =>
    match ty.asStruct with
    | none => some []
    | some id => emitElems id place 0 elems
  | .struct _ _ fields _ =>
    match ty.asStruct with
    | none => some []
    | some id => emitFields id place fields
  | .dataVariant module typeName variant bindings =>
    match resolveEnumFromPattern env (.dataVariant module typeName variant bindings) with
    | none => some []
    | some (id, index) => do
        let definition ← variantDef env id index
        emitBindings definition index place 0 bindings
  | .structVariant module typeName variant fieldBindings =>
    match resolveEnumFromPattern env (.structVariant module typeName variant fieldBindings) with
    | none => some []
    | some (id, index) => do
        let definition ← variantDef env id index
        emitFieldBindings definition index place fieldBindings
  | .wildcard | .int _ | .bool _ | .path _ _ _ | .comptimeUnrollArm _ _ => some []

def emitElems (id : StructId) (place : List Projection) : Nat → List RirPattern → Option (List Setup)
  | _, [] => some []
  | index, elem :: elems =>
    match (env.pool.structDef id).fields[index]? with
    | none => some []
    | some field => do
        let setups ← emitRecursivePatternBindings field.ty (place ++ [.field id index]) elem
        let rest ← emitElems id place (index + 1) elems
        return setups ++ rest

def emitFields (id : StructId) (place : List Projection) : List RirStructField → Option (List Setup)
  | [] => some []
  | .mk fieldName pattern :: fields =>
    match structField (env.pool.structDef id) fieldName with
    | none => emitFields id place fields
    | some index => do
        let field ← (env.pool.structDef id).fields[index]?
        let setups ← emitRecursivePatternBindings field.ty (place ++ [.field id index]) pattern
        let rest ← emitFields id place fields
        return setups ++ rest

def emitBindings (definition : EnumVariantDef) (variantIndex : Nat) (place : List Projection) :
    Nat → List RirPatternBinding → Option (List Setup)
  | _, [] => some []
  | index, binding :: bindings =>
    match definition.fields[index]? with
    | none => some []
    | some ty => do
        let setups ← emitBindingSetup ty (place ++ [.payload variantIndex index]) binding
        let rest ← emitBindings definition variantIndex place (index + 1) bindings
        return setups ++ rest

def emitFieldBindings (definition : EnumVariantDef) (variantIndex : Nat) (place : List Projection) :
    List RirStructPatternBinding → Option (List Setup)
  | [] => some []
  | .mk fieldName binding :: fields =>
    if fieldName = restMarker then emitFieldBindings definition variantIndex place fields
    else
      match findField definition fieldName with
      | none => emitFieldBindings definition variantIndex place fields
      | some index => do
          let ty ← definition.fields[index]?
          let setups ← emitBindingSetup ty (place ++ [.payload variantIndex index]) binding
          let rest ← emitFieldBindings definition variantIndex place fields
          return setups ++ rest

def emitBindingSetup (ty : Ty) (place : List Projection) : RirPatternBinding → Option (List Setup)
  | .mk _ _ _ (some sub) => emitRecursivePatternBindings ty place sub
  | .mk true _ _ none => some []
  | .mk false isMut (some name) none => some [⟨some name, isMut, ty, place⟩]
  | .mk false _ none none => some []

end

def emitVariantField (definition : EnumVariantDef) (variantIndex : Nat)
    (field : Nat × RirPatternBinding) : Option (List Setup) := do
  let ty ← definition.fields[field.1]?
  let place := [Projection.payload variantIndex field.1]
  match field.2.subPattern with
  | some sub => emitRecursivePatternBindings env ty place sub
  | none =>
    return [⟨if field.2.isWildcard then none else field.2.name, field.2.isMut, ty, place⟩]

def emitVariantFields (definition : EnumVariantDef) (variantIndex : Nat) :
    List (Nat × RirPatternBinding) → Option (List Setup)
  | [] => some []
  | field :: fields => do
      let setups ← emitVariantField env definition variantIndex field
      let rest ← emitVariantFields definition variantIndex fields
      return setups ++ rest

def dataBindings (fieldCount : Nat) (bindings : List RirPatternBinding) : Option (List (Nat × RirPatternBinding)) :=
  let explicit := bindings.length - 1
  let endsInRest := (bindings.getLast?.map RirPatternBinding.isRest).getD false
  if endsInRest ∧ fieldCount < explicit then none
  else
    let padding := if endsInRest then List.replicate (fieldCount - explicit) .wildcard else []
    let expanded := if padding.isEmpty then bindings else bindings.take explicit ++ padding
    some (expanded.zipIdx.map fun (binding, index) => (index, binding))

def namedBindings (definition : EnumVariantDef) :
    List RirStructPatternBinding → Option (List (Nat × RirPatternBinding))
  | [] => some []
  | field :: fields =>
    if field.isRest then namedBindings definition fields
    else do
      let index ← findField definition field.fieldName
      let rest ← namedBindings definition fields
      return (index, field.binding) :: rest

def structBindings (definition : EnumVariantDef) (fields : List RirStructPatternBinding) :
    Option (List (Nat × RirPatternBinding)) := do
  let explicit ← namedBindings definition fields
  let unlisted := definition.fieldNames.zipIdx.filterMap fun (_, index) =>
    if index ∈ explicit.map Prod.fst then none else some (index, RirPatternBinding.wildcard)
  return explicit ++ if fields.any RirStructPatternBinding.isRest then unlisted else []

def emitArm (scrutinee : Ty) (pattern : RirPattern) (resolved : Option (EnumId × Nat)) : Option (List Setup) :=
  match pattern with
  | .dataVariant _ _ _ bindings => do
      let (id, index) ← resolved
      let definition ← variantDef env id index
      let fields ← dataBindings definition.fields.length bindings
      emitVariantFields env definition index fields
  | .structVariant _ _ _ fieldBindings => do
      let (id, index) ← resolved
      let definition ← variantDef env id index
      let fields ← structBindings definition fieldBindings
      emitVariantFields env definition index fields
  | .ident _ _ | .tuple _ _ | .struct _ _ _ _ =>
    emitRecursivePatternBindings env scrutinee [] (expandedTuplePattern env scrutinee pattern)
  | .wildcard | .int _ | .bool _ | .path _ _ _ | .comptimeUnrollArm _ _ => some []

end Emission

structure Arm where
  pattern : RirPattern
  body : InstRef

/-- What the analysis gets from elsewhere: the elements of the iterable of an unrolled arm, and the
type of an arm's body. -/
structure Elsewhere where
  variantNames : InstRef → Except SemaError (List String)
  analyzeArmBody : Nat → InstRef → List Setup → Except SemaError Ty

section Matches

variable (env : Env) (elsewhere : Elsewhere)

def synthesizeVariantPattern (definition : EnumDef) (variant : EnumVariantDef) : RirPattern :=
  if variant.fields.isEmpty then .path none definition.name variant.name
  else if isStructVariant variant then
    .structVariant none definition.name variant.name [.mk restMarker (.mk true false (some restMarker) none)]
  else
    .dataVariant none definition.name variant.name (List.replicate variant.fields.length .wildcard)

def synthesizeArms (definition : EnumDef) (body : InstRef) : List String → Except SemaError (List Arm)
  | [] => .ok []
  | name :: names =>
    match (findVariant definition name).bind (definition.variants[·]?) with
    | none => .error (.comptimeEvaluationFailed ("comptime_unroll for: variant `" ++ name ++
        "` not found on enum `" ++ definition.name ++ "`"))
    | some variant => do
        let arms ← synthesizeArms definition body names
        return ⟨synthesizeVariantPattern definition variant, body⟩ :: arms

def isUnroll : RirPattern → Bool
  | .comptimeUnrollArm _ _ => true
  | _ => false

def expandArms (definition : EnumDef) : List Arm → Except SemaError (List Arm)
  | [] => .ok []
  | arm :: arms => do
      let expanded ← match arm.pattern with
        | .comptimeUnrollArm _ iterable => do
            let names ← elsewhere.variantNames iterable
            synthesizeArms definition arm.body names
        | _ => pure [arm]
      let rest ← expandArms definition arms
      return expanded ++ rest

def expandUnrollArms (scrutinee : Ty) (raw : List Arm) : Except SemaError (List Arm) :=
  if raw.any fun arm => isUnroll arm.pattern then
    match scrutinee.asEnum with
    | none => .error (.comptimeEvaluationFailed "`comptime_unroll for v in ...` arm requires an enum scrutinee")
    | some id => expandArms elsewhere (env.pool.enumDef id) raw
  else .ok raw

def orError {α : Type} : Except SemaError α → Except Failure α
  | .ok a => .ok a
  | .error error => .error (.error error)

def orPanic {α : Type} : Option α → Except Failure α
  | some a => .ok a
  | none => .error .panic

def armType (result : Option Ty) (bodyType : Ty) : Except SemaError Ty := match result with
  | none => .ok bodyType
  | some previous =>
    if previous.isNever then .ok bodyType
    else if bodyType.isNever then .ok previous
    else if previous ≠ bodyType ∧ !previous.isError ∧ !bodyType.isError then
      .error (.armTypeMismatch previous bodyType)
    else .ok previous

def analyzeArms (scrutinee : Ty) : Nat → Option Ty → List Arm → Except Failure (List AirPattern × Option Ty)
  | _, result, [] => .ok ([], result)
  | index, result, arm :: arms => do
      let resolved ← orError (validate env scrutinee arm.pattern)
      let setups ← orPanic (emitArm env scrutinee arm.pattern resolved)
      let bodyType ← orError (elsewhere.analyzeArmBody index arm.body setups)
      let result ← orError (armType result bodyType)
      let pattern ← orPanic (lowerPattern env (expandedTuplePattern env scrutinee arm.pattern) resolved)
      let (patterns, final) ← analyzeArms scrutinee (index + 1) (some result) arms
      return (pattern :: patterns, final)

def isMatchable (ty : Ty) : Bool :=
  ty.isInteger || ty = .bool || ty.asEnum.isSome || ty.asStruct.isSome || ty.isNever

def isUninhabited (ty : Ty) : Bool :=
  ty.isNever || (ty.asEnum.map fun id => (env.pool.enumDef id).variants.isEmpty).getD false

def analyzeMatch (scrutinee : Ty) (raw : List Arm) : Except Failure (List AirPattern × Ty) :=
  if !isMatchable scrutinee then .error (.error (.invalidMatchType scrutinee))
  else do
    let arms ← orError (expandUnrollArms env elsewhere scrutinee raw)
    if arms.isEmpty then
      if isUninhabited env scrutinee then return ([], .never)
      else throw (.error .emptyMatch)
    else
      let (patterns, result) ← analyzeArms env elsewhere scrutinee 0 none arms
      let missing := exhaustivenessWitnesses env.pool patterns scrutinee
      if missing.isEmpty then return (patterns, result.getD .unit)
      else throw (.error (.nonExhaustiveMatch missing))

end Matches

end Gruel.MatchPatterns
