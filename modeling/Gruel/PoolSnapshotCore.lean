import Mathlib.Data.Multiset.Dedup
import Gruel.CacheCore
import Gruel.TypePool

/-!
Snapshots of the type pool: only the list of types is kept, and the deduplication maps and name maps
are rebuilt from it.
-/

namespace Gruel

namespace TypeInternPoolInner

def rebuildEntry (pool : TypeInternPoolInner) (data : TypeData) : Option TypeInternPoolInner := do
  let idx ← InternedType.fromPoolIndex pool.types.length
  let recorded := match data with
    | .struct name _ => { pool with structByName := (name, idx) :: pool.structByName }
    | .enum name _ => { pool with enumByName := (name, idx) :: pool.enumByName }
    | .array element len => { pool with arrayMap := ((element, len), idx) :: pool.arrayMap }
    | .ptrConst pointee => { pool with ptrConstMap := (pointee, idx) :: pool.ptrConstMap }
    | .ptrMut pointee => { pool with ptrMutMap := (pointee, idx) :: pool.ptrMutMap }
    | .ref referent => { pool with refMap := (referent, idx) :: pool.refMap }
    | .mutRef referent => { pool with mutRefMap := (referent, idx) :: pool.mutRefMap }
    | .slice element => { pool with sliceMap := (element, idx) :: pool.sliceMap }
    | .mutSlice element => { pool with mutSliceMap := (element, idx) :: pool.mutSliceMap }
    | .vec element => { pool with vecMap := (element, idx) :: pool.vecMap }
  some (recorded.push data)

def cloneSnapshot (pool : TypeInternPoolInner) : Option TypeInternPoolInner :=
  pool.types.foldlM rebuildEntry {}

def serialize (codec : Cache.Codec (List TypeData)) (pool : TypeInternPoolInner) : Option Cache.Bytes :=
  codec.encode pool.types

def deserialize (codec : Cache.Codec (List TypeData)) (bytes : Cache.Bytes) : Option TypeInternPoolInner := do
  let types ← codec.decode bytes
  types.foldlM rebuildEntry {}

def getStructByName (pool : TypeInternPoolInner) (name : Spur) : Option InternedType :=
  pool.structByName.lookup name

def getEnumByName (pool : TypeInternPoolInner) (name : Spur) : Option InternedType :=
  pool.enumByName.lookup name

def getArray (pool : TypeInternPoolInner) (element : InternedType) (len : Nat) : Option InternedType :=
  pool.arrayMap.lookup (element, len)

-- The outer `none` is the panic on an index past the end.
def get (pool : TypeInternPoolInner) (ty : InternedType) : Option (Option TypeData) :=
  match ty.poolIndex with
  | none => some none
  | some index => pool.types[index]?.map some

def structDef (pool : TypeInternPoolInner) (id : StructId) : Option StructDef :=
  match pool.types[id]? with
  | some (.struct _ definition) => some definition
  | _ => none

def enumDef (pool : TypeInternPoolInner) (id : EnumId) : Option EnumDef :=
  match pool.types[id]? with
  | some (.enum _ definition) => some definition
  | _ => none

def getArrayByType (pool : TypeInternPoolInner) (elementType : Ty) (len : Nat) : Option (Option ArrayTypeId) := do
  let element ← typeToInternedRecursive elementType
  match pool.arrayMap.lookup (element, len) with
  | none => some none
  | some interned => interned.poolIndex.map some

def mapValues (map : List (Spur × InternedType)) : Multiset InternedType :=
  ((map.map Prod.fst).dedup.filterMap fun name => map.lookup name : List InternedType)

def allStructIds (pool : TypeInternPoolInner) : Multiset (Option StructId) :=
  (mapValues pool.structByName).map InternedType.poolIndex

def allEnumIds (pool : TypeInternPoolInner) : Multiset (Option EnumId) :=
  (mapValues pool.enumByName).map InternedType.poolIndex

def allArrayIds (pool : TypeInternPoolInner) : List ArrayTypeId := pool.types.zipIdx.filterMap fun
    | (.array _ _, index) => some index
    | _ => none

def allVecIds (pool : TypeInternPoolInner) : List PointeeId := pool.types.zipIdx.filterMap fun
    | (.vec _, index) => some index
    | _ => none

end TypeInternPoolInner

inductive PoolRequest
  | registerStruct (name : Spur) (definition : StructDef)
  | reserveStructId
  | completeStructRegistration (id : StructId) (name : Spur) (definition : StructDef)
  | registerEnum (name : Spur) (definition : EnumDef)
  | updateStructDef (id : StructId) (definition : StructDef)
  | updateEnumDef (id : EnumId) (definition : EnumDef)
  | intern (kind : StructuralKind) (component : InternedType)
  | internType (kind : StructuralKind) (component : Ty)
  | getStructByName (name : Spur)
  | getEnumByName (name : Spur)
  | getArray (element : InternedType) (len : Nat)
  | getArrayByType (elementType : Ty) (len : Nat)
  | get (ty : InternedType)
  | structDef (id : StructId)
  | enumDef (id : EnumId)
  | readBack (id : Nat) (kind : StructuralKind)
  | allStructIds
  | allEnumIds
  | allArrayIds
  | allVecIds
  | len

inductive PoolAnswer
  | done
  | registered (id : Nat) (isNew : Bool)
  | reserved (id : StructId)
  | interned (ty : InternedType)
  | internedId (id : Nat)
  | named (ty : Option InternedType)
  | arrayId (id : Option ArrayTypeId)
  | data (data : Option TypeData)
  | structDef (definition : StructDef)
  | enumDef (definition : EnumDef)
  | component (component : StructuralKind × Ty)
  | idsByName (ids : Multiset (Option Nat))
  | ids (ids : List Nat)
  | count (len : Nat)

namespace TypeInternPoolInner

def ask (pool : TypeInternPoolInner) : PoolRequest → Option (TypeInternPoolInner × PoolAnswer)
  | .registerStruct name definition =>
    (pool.registerStruct name definition).map fun (after, id, isNew) =>
      (after, .registered id isNew)
  | .reserveStructId => pool.reserveStructId.map fun (after, id) => (after, .reserved id)
  | .completeStructRegistration id name definition =>
    (pool.completeStructRegistration id name definition).map fun after => (after, .done)
  | .registerEnum name definition =>
    (pool.registerEnum name definition).map fun (after, id, isNew) =>
      (after, .registered id isNew)
  | .updateStructDef id definition =>
    (pool.updateStructDef id definition).map fun after => (after, .done)
  | .updateEnumDef id definition =>
    (pool.updateEnumDef id definition).map fun after => (after, .done)
  | .intern kind component =>
    (pool.intern kind component).map fun (after, interned) => (after, .interned interned)
  | .internType kind component =>
    (pool.internType kind component).map fun (after, id) => (after, .internedId id)
  | .getStructByName name => some (pool, .named (pool.getStructByName name))
  | .getEnumByName name => some (pool, .named (pool.getEnumByName name))
  | .getArray element len => some (pool, .named (pool.getArray element len))
  | .getArrayByType elementType len =>
    (pool.getArrayByType elementType len).map fun id => (pool, .arrayId id)
  | .get ty => (pool.get ty).map fun data => (pool, .data data)
  | .structDef id => (pool.structDef id).map fun definition => (pool, .structDef definition)
  | .enumDef id => (pool.enumDef id).map fun definition => (pool, .enumDef definition)
  | .readBack id kind => (pool.readBack id kind).map fun component => (pool, .component component)
  | .allStructIds => some (pool, .idsByName pool.allStructIds)
  | .allEnumIds => some (pool, .idsByName pool.allEnumIds)
  | .allArrayIds => some (pool, .ids pool.allArrayIds)
  | .allVecIds => some (pool, .ids pool.allVecIds)
  | .len => some (pool, .count pool.types.length)

def answers (pool : TypeInternPoolInner) : List PoolRequest → List (Option PoolAnswer)
  | [] => []
  | request :: rest =>
    match pool.ask request with
    | none => [none]
    | some (after, answer) => some answer :: after.answers rest

end TypeInternPoolInner

def PoolCall.isReservation : PoolCall → Bool
  | .reserveStructId | .completeStructRegistration _ _ _ => true
  | _ => false

namespace TypeInternPoolInner

/-- The states a pool goes through, with the ids that are reserved and not yet
completed.  Completing an id is the caller's second half of reserving it. -/
inductive Registers : TypeInternPoolInner → List StructId → Prop
  | empty : Registers {} []
  | reserve {pool after : TypeInternPoolInner} {pending : List StructId} {id : StructId}
      (before : Registers pool pending) (reserved : pool.reserveStructId = some (after, id)) :
      Registers after (id :: pending)
  | complete {pool after : TypeInternPoolInner} {pending : List StructId} {id : StructId}
      {name : Spur} {definition : StructDef} (before : Registers pool pending)
      (isPending : id ∈ pending)
      (completed : pool.completeStructRegistration id name definition = some after) :
      Registers after (pending.filter (· ≠ id))
  | call {pool after : TypeInternPoolInner} {pending : List StructId} {call : PoolCall}
      {handle : PoolHandle} (before : Registers pool pending)
      (other : call.isReservation = false) (performed : pool.perform call = some (after, handle)) :
      Registers after pending

end TypeInternPoolInner

end Gruel
