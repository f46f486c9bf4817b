import Gruel.LinearityCore
import Gruel.Lib.OnePass

/-!
`validate_consistency`: one pass over the declarations of structs and enums that infers the
posture and the thread safety of each from those of its members.
-/

namespace Gruel

namespace Classify

inductive ThreadSafety
  | unsend | send | sync
  deriving DecidableEq, Repr

def ThreadSafety.min : ThreadSafety → ThreadSafety → ThreadSafety
  | .unsend, _ | _, .unsend => .unsend
  | .send, _ | _, .send => .send
  | .sync, .sync => .sync

inductive Named
  | struct (id : StructId)
  | enum (id : EnumId)
  deriving DecidableEq, Repr

structure Class where
  posture : Posture
  threadSafety : ThreadSafety
  deriving DecidableEq, Repr

abbrev Classes := Named → Class

def elements (pool : TypeInternPool) (pointee : Ty → Ty) : Ty → List Ty
  | .array id => [(pool.arrayDef id).1]
  | .vec id => [pointee (.vec id)]
  | .slice id => [pointee (.slice id)]
  | .mutSlice id => [pointee (.mutSlice id)]
  | .ref id => [pointee (.ref id)]
  | .mutRef id => [pointee (.mutRef id)]
  | _ => []

/-- The definitions with their fields resolved. Declared types may mention each other in any
way; arrays, vectors, slices and references are finite types. -/
structure DeclPool extends TypeInternPool where
  pointee : Ty → Ty
  depth : Ty → Nat
  depth_lt : ∀ ty, ∀ part ∈ elements toTypeInternPool pointee ty, depth part < depth ty

def payloads (definition : EnumDef) : List Ty := definition.variants.flatMap EnumVariantDef.fields

section Reading

variable (pool : DeclPool) (classes : Classes)

def isTypeLinear : Nat → Ty → Option Bool
  | 0, _ => none
  | fuel + 1, ty =>
    match ty with
    | .struct id => some (decide ((classes (.struct id)).posture = .linear))
    | .array id =>
      if 0 < (pool.arrayDef id).2 then isTypeLinear fuel (pool.arrayDef id).1 else some false
    | .vec id => isTypeLinear fuel (pool.pointee (.vec id))
    | .enum id =>
      if (classes (.enum id)).posture = .linear then some true
      else (payloads (pool.enumDef id)).anyM (isTypeLinear fuel)
    | _ => some false

def isTypeCopy (fuel : Nat) (ty : Ty) : Option Bool := match ty with
  | .cVoid => some false
  | .enum id =>
    match (classes (.enum id)).posture with
    | .copy => some true
    | .linear => some false
    | .affine =>
      ((payloads (pool.enumDef id)).anyM (isTypeLinear pool classes fuel)).map fun linear =>
        !linear
  | .struct id => some (decide ((classes (.struct id)).posture = .copy))
  | .array id =>
    if (pool.arrayDef id).2 = 0 then some true else isTypeCopy fuel (pool.arrayDef id).1
  | .vec _ => some false
  | _ => some true
termination_by pool.depth ty
decreasing_by exact pool.depth_lt (.array id) _ (List.mem_singleton.mpr rfl)

def classifyPosture (fuel : Nat) (ty : Ty) : Option Posture := do
  if ← isTypeLinear pool classes fuel ty then return .linear
  if ← isTypeCopy pool classes fuel ty then return .copy
  return .affine

def isThreadSafetyType (ty : Ty) : ThreadSafety := match ty with
  | .ptrConst _ | .ptrMut _ => .unsend
  | .array id => isThreadSafetyType (pool.arrayDef id).1
  | .slice id => isThreadSafetyType (pool.pointee (.slice id))
  | .mutSlice id => isThreadSafetyType (pool.pointee (.mutSlice id))
  | .vec id => isThreadSafetyType (pool.pointee (.vec id))
  | .ref id => isThreadSafetyType (pool.pointee (.ref id))
  | .mutRef id => isThreadSafetyType (pool.pointee (.mutRef id))
  | .struct id => (classes (.struct id)).threadSafety
  | .enum id => (classes (.enum id)).threadSafety
  | _ => .sync
termination_by pool.depth ty
decreasing_by
  · exact pool.depth_lt (.array id) _ (List.mem_singleton.mpr rfl)
  · exact pool.depth_lt (.slice id) _ (List.mem_singleton.mpr rfl)
  · exact pool.depth_lt (.mutSlice id) _ (List.mem_singleton.mpr rfl)
  · exact pool.depth_lt (.vec id) _ (List.mem_singleton.mpr rfl)
  · exact pool.depth_lt (.ref id) _ (List.mem_singleton.mpr rfl)
  · exact pool.depth_lt (.mutRef id) _ (List.mem_singleton.mpr rfl)

end Reading

/-- A declaration with what its markers and its methods say. -/
structure TypeDecl where
  named : Named
  declaredAffine : Bool := false
  threadSafetyOverride : Option ThreadSafety := none
  hasDrop : Bool := false
  deriving DecidableEq, Repr

def hostKind : Named → String
  | .struct _ => "struct"
  | .enum _ => "enum"

def memberKind : Named → String
  | .struct _ => "field"
  | .enum _ => "variant field"

def DeclPool.hostName (pool : DeclPool) : Named → String
  | .struct id => (pool.structDef id).name
  | .enum id => (pool.enumDef id).name

def DeclPool.members (pool : DeclPool) : Named → List Member
  | .struct id => structMembers (pool.structDef id)
  | .enum id => enumMembers (pool.enumDef id)

def TypeDecl.declared (decl : TypeDecl) (classes : Classes) : Option Posture :=
  declaredPosture (classes decl.named).posture decl.declaredAffine

def walkMembers (pool : DeclPool) (classes : Classes) (fuel : Nat) (host : Named) (declared : Option Posture) :
    List Member → Option (Except PostureMismatchError (List Posture))
  | [] => some (.ok [])
  | member :: rest => do
      let posture ← classifyPosture pool classes fuel member.ty
      match checkPostureAgainstDeclared (hostKind host) (pool.hostName host) declared
        (memberKind host) member posture with
      | .error error => return .error error
      | .ok () =>
        match ← walkMembers pool classes fuel host declared rest with
        | .error error => return .error error
        | .ok postures => return .ok (posture :: postures)

def inferPosture (postures : List Posture) (hasDrop : Bool) : Posture :=
  if postures.any fun posture => decide (posture = .linear) then .linear
  else if (postures.all fun posture => decide (posture ≠ .affine)) && !hasDrop then .copy
  else .affine

def inferThreadSafety (pool : DeclPool) (classes : Classes) (members : List Member) : ThreadSafety :=
  (members.map fun member => isThreadSafetyType pool classes member.ty).foldr ThreadSafety.min .sync

def inferClass (pool : DeclPool) (fuel : Nat) (decl : TypeDecl) (classes : Classes) :
    Option (Except PostureMismatchError Class) := do
  let declared := decl.declared classes
  let members := pool.members decl.named
  match ← walkMembers pool classes fuel decl.named declared members with
  | .error error => return .error error
  | .ok postures =>
    let posture := declared.getD (inferPosture postures decl.hasDrop)
    let threadSafety := decl.threadSafetyOverride.getD (inferThreadSafety pool classes members)
    return .ok { posture, threadSafety }

section Structural

variable (pool : DeclPool) (classes : Classes)

def memberPosture (ty : Ty) : Posture := match ty with
  | .struct id => (classes (.struct id)).posture
  | .enum id => (classes (.enum id)).posture
  | .array id => if (pool.arrayDef id).2 = 0 then .copy else memberPosture (pool.arrayDef id).1
  | .vec id => if memberPosture (pool.pointee (.vec id)) = .linear then .linear else .affine
  | .cVoid => .affine
  | _ => .copy
termination_by pool.depth ty
decreasing_by
  · exact pool.depth_lt (.array id) _ (List.mem_singleton.mpr rfl)
  · exact pool.depth_lt (.vec id) _ (List.mem_singleton.mpr rfl)

def structuralPosture (decl : TypeDecl) : Posture :=
  let postures := (pool.members decl.named).map fun member => memberPosture pool classes member.ty
  if .linear ∈ postures then .linear
  else if (∀ posture ∈ postures, posture = .copy) ∧ decl.hasDrop = false then .copy
  else .affine

def structuralThreadSafety (decl : TypeDecl) : ThreadSafety :=
  ((pool.members decl.named).map fun member =>
    isThreadSafetyType pool classes member.ty).foldr ThreadSafety.min .sync

end Structural

/-- Every declared type has the class that its members and its markers give it. -/
structure Structural (pool : DeclPool) (decls : List TypeDecl) (start final : Classes) : Prop where
  unmarked : ∀ decl ∈ decls, decl.declared start = none →
    (final decl.named).posture = structuralPosture pool final decl
  marked : ∀ decl ∈ decls, ∀ posture, decl.declared start = some posture →
    (final decl.named).posture = posture ∧ ∀ member ∈ pool.members decl.named,
        violates (some posture) (memberPosture pool final member.ty) = false
  inferredSafety : ∀ decl ∈ decls, decl.threadSafetyOverride = none →
    (final decl.named).threadSafety = structuralThreadSafety pool final decl
  markedSafety : ∀ decl ∈ decls, ∀ level, decl.threadSafetyOverride = some level →
    (final decl.named).threadSafety = level

end Classify

end Gruel
