import Gruel.OwnershipCore

/-!
How a definition comes by its posture: the structural rules for anonymous structs and
enums, and `validate_consistency` for declared types.
-/

namespace Gruel

def Ty.isCopy : Ty → Bool
  | .cVoid | .struct _ | .array _ | .interface _ | .ptrConst _ | .ptrMut _ | .ref _ | .mutRef _
  | .slice _ | .mutSlice _ | .vec _ => false
  | _ => true

def isCopyInPool (pool : OwnershipPool) : Ty → Bool
  | .struct id => decide ((pool.structDef id).posture = .copy)
  | ty => ty.isCopy

/-- The rule of `find_or_create_anon_struct` and `create_unique_anon_struct`. -/
def anonStructPosture (pool : OwnershipPool) (fields : List StructField) : Posture :=
  if fields.all fun field => isCopyInPool pool field.ty then .copy else .affine

def anonEnumPosture (pool : OwnershipPool) (variants : List EnumVariantDef) : Posture :=
  if variants.any fun variant => variant.fields.any (isTypeLinear pool) then .linear
  else if variants.all fun variant => variant.fields.all (isTypeCopy pool) then .copy
  else .affine

def classifyPosture (pool : OwnershipPool) (ty : Ty) : Posture :=
  if isTypeLinear pool ty then .linear else if isTypeCopy pool ty then .copy else .affine

def declaredPosture (posture : Posture) (declaredAffine : Bool) : Option Posture :=
  match posture with
  | .affine => if declaredAffine then some .affine else none
  | declared => some declared

structure PostureMismatchError where
  hostKind : String
  hostName : String
  declaredPosture : Option Posture
  memberKind : String
  memberName : String
  memberType : Ty
  memberPosture : Posture
  deriving DecidableEq, Repr

structure Member where
  name : String
  ty : Ty
  deriving DecidableEq, Repr

def violates : Option Posture → Posture → Bool
  | some .copy, .affine | some .copy, .linear | some .affine, .linear => true
  | _, _ => false

def checkPostureAgainstDeclared (hostKind hostName : String) (declared : Option Posture)
    (memberKind : String) (member : Member) (memberPosture : Posture) :
    Except PostureMismatchError Unit :=
  if violates declared memberPosture then
    .error ⟨hostKind, hostName, declared, memberKind, member.name, member.ty, memberPosture⟩
  else .ok ()

def checkMembers (pool : OwnershipPool) (hostKind hostName : String) (declared : Option Posture)
    (memberKind : String) : List Member → Except PostureMismatchError Unit
  | [] => .ok ()
  | member :: members => do
      checkPostureAgainstDeclared hostKind hostName declared memberKind member (classifyPosture pool member.ty)
      checkMembers pool hostKind hostName declared memberKind members

attribute [grind =] checkMembers

def inferredPosture (pool : OwnershipPool) (members : List Member) (hasDrop : Bool) : Posture :=
  if members.any fun member => isTypeLinear pool member.ty then .linear
  else if (members.all fun member => decide (classifyPosture pool member.ty ≠ .affine)) && !hasDrop
  then .copy
  else .affine

def structMembers (definition : StructDef) : List Member :=
  definition.fields.map fun field => ⟨field.name, field.ty⟩

def variantMembers (hostName : String) (variant : EnumVariantDef) : List Member :=
  variant.fields.zipIdx.map fun (ty, index) =>
    ⟨hostName ++ "::" ++ variant.name ++ "." ++ ((variant.fieldNames[index]?).getD (toString index)), ty⟩

def enumMembers (definition : EnumDef) : List Member :=
  definition.variants.flatMap (variantMembers definition.name)

namespace OwnershipPool

def withStructPosture (pool : OwnershipPool) (id : StructId) (posture : Posture) : OwnershipPool where
  structDef other :=
    if other = id then { pool.structDef id with posture := posture } else pool.structDef other
  enumDef := pool.enumDef
  arrayDef := pool.arrayDef
  rank := pool.rank
  rank_lt ty part member := by
    cases ty
    case struct other =>
      refine pool.rank_lt (.struct other) part ?_
      simp only [TypeInternPool.components] at member ⊢
      split at member
      · next same => rw [same]; exact member
      · exact member
    all_goals exact pool.rank_lt _ part member
  vecDef := pool.vecDef
  linearRank := pool.linearRank
  linearRank_lt ty part member := by
    cases ty <;> exact pool.linearRank_lt _ part member

def withEnumPosture (pool : OwnershipPool) (id : EnumId) (posture : Posture)
    (unset : (pool.enumDef id).posture ≠ .linear) : OwnershipPool where
  structDef := pool.structDef
  enumDef other :=
    if other = id then { pool.enumDef id with posture := posture } else pool.enumDef other
  arrayDef := pool.arrayDef
  rank := pool.rank
  rank_lt ty part member := by
    cases ty
    case enum other =>
      refine pool.rank_lt (.enum other) part ?_
      simp only [TypeInternPool.components] at member ⊢
      split at member
      · next same => rw [same]; exact member
      · exact member
    all_goals exact pool.rank_lt _ part member
  vecDef := pool.vecDef
  linearRank := pool.linearRank
  linearRank_lt ty part member := by
    cases ty
    case enum other =>
      refine pool.linearRank_lt (.enum other) part ?_
      by_cases same : other = id
      · simp only [TypeInternPool.linearParts, same, if_true] at member ⊢
        rw [if_neg unset]
        split at member
        · cases member
        · exact member
      · simpa only [TypeInternPool.linearParts, if_neg same] using member
    all_goals exact pool.linearRank_lt _ part member

end OwnershipPool

inductive Completion
  | anonStruct (id : StructId) (marked : Bool)
  | anonEnum (id : EnumId) (marked : Bool)
  | structDecl (id : StructId) (declaredAffine hasDrop : Bool)
  | enumDecl (id : EnumId) (declaredAffine hasDrop : Bool)
  deriving DecidableEq, Repr

def Completion.ty : Completion → Ty
  | .anonStruct id _ | .structDecl id _ _ => .struct id
  | .anonEnum id _ | .enumDecl id _ _ => .enum id

-- A marked definition has the marked posture from the start, and keeps it.
def complete (pool : OwnershipPool) : Completion → Except PostureMismatchError OwnershipPool
  | .anonStruct id marked =>
    if marked then .ok pool
    else .ok (pool.withStructPosture id (anonStructPosture pool (pool.structDef id).fields))
  | .anonEnum id marked =>
    if marked then .ok pool
    else if unset : (pool.enumDef id).posture = .affine then
      .ok (pool.withEnumPosture id (anonEnumPosture pool (pool.enumDef id).variants) (by rw [unset]; decide))
    else .ok pool
  | .structDecl id declaredAffine hasDrop => do
      let definition := pool.structDef id
      let declared := declaredPosture definition.posture declaredAffine
      let members := structMembers definition
      checkMembers pool "struct" definition.name declared "field" members
      match declared with
      | some _ => .ok pool
      | none => .ok (pool.withStructPosture id (inferredPosture pool members hasDrop))
  | .enumDecl id declaredAffine hasDrop => do
      let definition := pool.enumDef id
      let declared := declaredPosture definition.posture declaredAffine
      let members := enumMembers definition
      checkMembers pool "enum" definition.name declared "variant field" members
      if unset : definition.posture = .affine then
        match declared with
        | some _ => .ok pool
        | none =>
          .ok (pool.withEnumPosture id (inferredPosture pool members hasDrop) (by rw [unset]; decide))
      else .ok pool

def completeAll (pool : OwnershipPool) : List Completion → Except PostureMismatchError OwnershipPool
  | [] => .ok pool
  | completion :: completions => do completeAll (← complete pool completion) completions

end Gruel
